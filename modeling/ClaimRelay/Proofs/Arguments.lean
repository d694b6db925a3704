import ClaimRelay.Proofs.Arguments.Typing
import ClaimRelay.Proofs.Binary.Contents
import ClaimRelay.Proofs.ClaimSet.Shape
import ClaimRelay.Proofs.Walk.Lockstep

/-!
# What arguments serve

The claims of arguments are one level without entries. None of them has parts, so their labels are free.
-/

namespace ClaimRelay

/-! ## Values of arguments -/

namespace Argument

theorem value_plain {argument : String} {cs : List Char} {v : Value} (h : value argument cs = .ok v) :
    v.ownLabel? = none := by
  cases value_eq_ok.mp h <;> rfl

theorem claim_value {argument : String} {c : Claim} (h : claim argument = .ok c) :
    ∃ cs, value argument cs = .ok c.value := by
  unfold claim at h
  split at h
  · split at h
    · split at h
      · cases hv : value argument _ <;> rw [hv] at h <;> cases h
        exact ⟨_, hv⟩
      · cases h
    · cases h
  · cases h

theorem claim_placed {argument : String} {c : Claim} (h : claim argument = .ok c) : c.Placed := by
  obtain ⟨cs, hv⟩ := claim_value h
  intro own ho
  rw [value_plain hv] at ho
  cases ho

end Argument

/-! ## Arguments as a claim set -/

namespace Arguments

theorem parse_placed {arguments : List String} {a : Arguments} (h : parse arguments = .ok a) :
    ∃ claims, a = { claims } ∧ ∀ c ∈ claims, c.Placed := by
  obtain ⟨claims, hclaims, ha⟩ := Binary.bind_eq_ok.mp h
  refine ⟨claims, (Except.ok.inj ha).symm, ?_⟩
  clear h ha
  induction arguments generalizing claims with
  | nil =>
    cases hclaims
    exact List.forall_mem_nil _
  | cons argument arguments ih =>
    obtain ⟨c, rest, hc, hrest, rfl⟩ := Binary.mapM_cons_eq_ok.mp hclaims
    exact List.forall_mem_cons.mpr ⟨Argument.claim_placed hc, ih rest hrest⟩

theorem nextClaim_eq (s : Arguments) : nextClaim s = match s.claims[s.claimsRead]? with
    | some c => (.ok (some c), { s with claimsRead := s.claimsRead + 1 })
    | none => (.ok none, s) := by
  unfold nextClaim
  rw [Step.bind_of_ok (Step.get_apply s)]
  cases s.claims[s.claimsRead]? <;> rfl

theorem serves (claims : List Claim) :
    reader.Serves ⟨claims, []⟩ { claims } { claims, claimsRead := claims.length } := by
  have hclaims : reader.ServesClaims claims { claims } { claims, claimsRead := 0 + claims.length } :=
    reader.servesClaims_of_nextClaim (fun n => ⟨claims, n⟩) (fun n => nextClaim_eq ⟨claims, n⟩) claims rfl
  rw [Nat.zero_add] at hclaims
  exact ⟨_, hclaims, .nil rfl⟩

end Arguments

end ClaimRelay
