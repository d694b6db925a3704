import ClaimRelay.ClaimSet.Cursor

/-!
# Where cursors stand

Whatever calls are made on a cursor, valid or not, its path leads to a claim set inside of its root, and it
has read no more claims there, or in any claim set on the way, than there are.
-/

namespace ClaimRelay

/-! ## Parts of a claim set -/

theorem Entry.le_deepest {entries : List Entry} {entry : Entry} (h : entry ∈ entries) :
    entry.depth ≤ Entry.deepest entries := by
  induction entries with
  | nil => cases h
  | cons first rest ih =>
    rw [Entry.deepest]
    rcases List.mem_cons.mp h with rfl | h
    · exact Nat.le_max_left ..
    · exact Nat.le_trans (ih h) (Nat.le_max_right ..)

theorem Entry.le_totalExtent {entries : List Entry} {entry : Entry} (h : entry ∈ entries) :
    entry.extent ≤ Entry.totalExtent entries := by
  induction entries with
  | nil => cases h
  | cons first rest ih =>
    rw [Entry.totalExtent]
    rcases List.mem_cons.mp h with rfl | h
    · exact Nat.le_add_right ..
    · exact Nat.le_trans (ih h) (Nat.le_add_left ..)

namespace Cursor

/-- The cursors that calls lead to, be they valid or not. -/
inductive Reachable (root : ClaimSet) : Cursor → Prop
  | start : Reachable root { root }
  | nextClaim {s : Cursor} (h : Reachable root s) : Reachable root (nextClaim s).2
  | enter {s : Cursor} (h : Reachable root s) (index : Nat) : Reachable root (enter index s).2
  | exit {s : Cursor} (h : Reachable root s) : Reachable root (exit s).2
  | nestedToken {s : Cursor} (h : Reachable root s) (index : Nat) : Reachable root (nestedToken index s).2
  | rewind {s : Cursor} (h : Reachable root s) : Reachable root s.rewind

/-- Whether a cursor stands in `here`. -/
def Stands (s : Cursor) (here : ClaimSet) : Prop := follow s.root s.path = .ok here

/-! ## Calls, by where the cursor stands -/

variable {s : Cursor} {here : ClaimSet}

theorem current_eq (h : s.Stands here) : current s = (.ok here, s) := by rw [current, h]

theorem nextClaim_eq (h : s.Stands here) :
    nextClaim s = match here.claims[s.claimsRead]? with
      | some c => (.ok (some c), { s with claimsRead := s.claimsRead + 1 })
      | none => (.ok none, s) := by
  unfold nextClaim
  rw [Step.bind_of_ok (current_eq h), Step.bind_of_ok (Step.get_apply s)]
  cases here.claims[s.claimsRead]? <;> rfl

theorem enter_eq (h : s.Stands here) (index : Nat) :
    enter index s = match here.entries[index]? with
      | some (.submodule name _ _) =>
        (.ok (.entered name), { s with path := ⟨index, s.claimsRead⟩ :: s.path, claimsRead := 0 })
      | some (.token t) => (.ok (.nested t.name), s)
      | none => (.ok .noMore, s) := by
  unfold enter
  rw [Step.bind_of_ok (current_eq h)]
  rcases here.entries[index]? with _ | ⟨_ | _⟩ <;> rfl

theorem exit_eq (s : Cursor) :
    exit s = match s.path with
      | [] => (.error (.structural .exitAtTop), s)
      | step :: above => (.ok (), { s with path := above, claimsRead := step.claimsRead }) := by
  unfold exit
  rw [Step.bind_of_ok (Step.get_apply s)]
  cases s.path <;> rfl

theorem nestedToken_eq (h : s.Stands here) (index : Nat) :
    nestedToken index s = match here.entries[index]? with
      | some (.token t) => (.ok t, s)
      | some (.submodule name _ _) => (.error (.structural (.notAToken index name)), s)
      | none => (.error (.structural (.noEntry index)), s) := by
  unfold nestedToken
  rw [Step.bind_of_ok (current_eq h)]
  rcases here.entries[index]? with _ | ⟨_ | _⟩ <;> rfl

theorem stands_start (root : ClaimSet) : Stands { root } root := rfl

theorem stands_submodule {index : Nat} {name : String} {claims : List Claim} {entries : List Entry} (n m : Nat)
    (h : s.Stands here) (he : here.entries[index]? = some (.submodule name claims entries)) :
    Stands { s with path := ⟨index, n⟩ :: s.path, claimsRead := m } ⟨claims, entries⟩ := by
  unfold Stands at h ⊢
  simp only [follow, h, bind, Except.bind, he]
  rfl

theorem follow_cons {root : ClaimSet} {d : Descent} {above : List Descent}
    (h : follow root (d :: above) = .ok here) : ∃ around name, follow root above = .ok around ∧
      around.entries[d.index]? = some (.submodule name here.claims here.entries) := by
  rw [follow] at h
  cases hf : follow root above with
  | error e => simp [hf, bind, Except.bind] at h
  | ok around =>
    simp only [hf, bind, Except.bind] at h
    split at h
    · rename_i name claims entries he
      cases h
      exact ⟨around, name, rfl, he⟩
    · cases h

/-! ## What reachable cursors keep -/

/-- A path that leads through submodules, with no more claims read than there are, at its end or on the way. -/
def Sound (root : ClaimSet) : List Descent → Nat → Prop
  | [], n => n ≤ root.claims.length
  | d :: above, n => Sound root above d.claimsRead ∧
    ∃ here, follow root (d :: above) = .ok here ∧ n ≤ here.claims.length

theorem Sound.stands {root : ClaimSet} {path : List Descent} {n : Nat} (h : Sound root path n) :
    ∃ here, follow root path = .ok here ∧ n ≤ here.claims.length := by
  cases path with
  | nil => exact ⟨root, rfl, h⟩
  | cons d above => exact h.2

theorem Sound.read {root : ClaimSet} {path : List Descent} {n m : Nat} (h : Sound root path n)
    (hf : follow root path = .ok here) (hm : m ≤ here.claims.length) : Sound root path m := by
  cases path with
  | nil =>
    cases hf
    exact hm
  | cons d above => exact ⟨h.1, here, hf, hm⟩

theorem Reachable.sound {root : ClaimSet} {s : Cursor} (h : Reachable root s) :
    s.root = root ∧ Sound root s.path s.claimsRead := by
  induction h with
  | start => exact ⟨rfl, Nat.zero_le _⟩
  | rewind _ ih => exact ⟨ih.1, Nat.zero_le _⟩
  | @nextClaim s _ ih =>
    obtain ⟨rfl, hs⟩ := ih
    obtain ⟨here, hf, hn⟩ := hs.stands
    rw [nextClaim_eq hf]
    cases hc : here.claims[s.claimsRead]? with
    | none => exact ⟨rfl, hs⟩
    | some c =>
      obtain ⟨hlt, -⟩ := List.getElem?_eq_some_iff.mp hc
      exact ⟨rfl, hs.read hf hlt⟩
  | @enter s _ index ih =>
    obtain ⟨rfl, hs⟩ := ih
    obtain ⟨here, hf, hn⟩ := hs.stands
    rw [enter_eq hf]
    split
    · rename_i name claims entries he
      exact ⟨rfl, hs, _, stands_submodule (s := s) s.claimsRead 0 hf he, Nat.zero_le _⟩
    · exact ⟨rfl, hs⟩
    · exact ⟨rfl, hs⟩
  | @exit s _ ih =>
    obtain ⟨rfl, hs⟩ := ih
    rw [exit_eq]
    cases hp : s.path with
    | nil => rw [hp] at hs; exact ⟨rfl, by rw [hp]; exact hs⟩
    | cons d above => rw [hp] at hs; exact ⟨rfl, hs.1⟩
  | @nestedToken s _ index ih =>
    obtain ⟨rfl, hs⟩ := ih
    obtain ⟨here, hf, -⟩ := hs.stands
    rw [nestedToken_eq hf]
    split <;> exact ⟨rfl, hs⟩

theorem Reachable.stands {root : ClaimSet} {s : Cursor} (h : Reachable root s) :
    ∃ here, s.Stands here ∧ s.claimsRead ≤ here.claims.length := by
  obtain ⟨rfl, hs⟩ := h.sound
  exact hs.stands

/-! ## Inside of the root -/

theorem extent_le_of_follow {root : ClaimSet} {path : List Descent} (h : follow root path = .ok here) :
    here.extent ≤ root.extent := by
  induction path generalizing here with
  | nil =>
    cases h
    exact Nat.le_refl _
  | cons d above ih =>
    obtain ⟨around, name, hf, he⟩ := follow_cons h
    have hentry := Entry.le_totalExtent (List.mem_of_getElem? he)
    have haround := ih hf
    simp only [Entry.extent, ClaimSet.extent] at hentry haround ⊢
    omega

theorem depth_le_of_follow {root : ClaimSet} {path : List Descent} (h : follow root path = .ok here) :
    here.depth + path.length ≤ root.depth := by
  induction path generalizing here with
  | nil =>
    cases h
    exact Nat.le_refl _
  | cons d above ih =>
    obtain ⟨around, name, hf, he⟩ := follow_cons h
    have hentry := Entry.le_deepest (List.mem_of_getElem? he)
    have haround := ih hf
    simp only [Entry.depth, ClaimSet.depth, List.length_cons] at hentry haround ⊢
    omega

end Cursor

end ClaimRelay
