import ClaimRelay.Proofs.Binary.Following
import ClaimRelay.Proofs.Binary.Modes
import ClaimRelay.Proofs.Binary.TwoPasses
import ClaimRelay.Proofs.Writer.Delivering

/-!
# Claim sets that are not written

A claim set that is at fault is refused while its size is counted. The buffer that counts refuses nothing itself, so
what is reported is the first item at fault, as it would be on a buffer that grows.
-/

namespace ClaimRelay

/-- A buffer that counts does for a growing one. -/
theorem Writer.Tracks.counted {ς : Type} {o : Outlet ς} {w : Writer ς} {image : Builder → ς} {q : Writer.Reasons}
    (hw : w.Tracks image q) (hp : Writer.Alike (Step.Paced o .measuring) w w)
    (ho : ∀ b, ∃ content, o.out (image b) = .growable content) :
    w.Tracks (fun b => o.inMode .measuring (image b)) q := by
  have hsame (r : Writer.Request) (b : Builder) : w.answer r (o.inMode .measuring (image b)) =
      ((w.answer r (image b)).1, o.inMode .measuring (w.answer r (image b)).2) := by
    obtain ⟨content, hcontent⟩ := ho b
    have hpaced := Writer.answer_alike (Step.Paced.congruence o .measuring) hp r (image b) content hcontent
    obtain ⟨_, -, -, hroom, -⟩ := hpaced
    exact hroom trivial
  refine ⟨fun {b r} hb h hr => ?_, fun {b r e} hb h hr => ?_⟩
  · rw [hsame, hw.takes hb h hr]
  · rw [hsame, hw.refuses hb h hr]

namespace Binary

variable {σ : Type} {limit : Nat} {r : Reader σ} {m : ClaimSet} {s s' : σ}

theorem render_at_fault (hm : r.Serves m s s') (hx : m.extent ≤ r.extent s) {e : Error}
    (h : m.items.findSome? (TokenWriter.reasons.fault limit) = some e) : render limit r s = .error e := by
  have hgrows (b : Builder) : ∃ content, TokenWriter.outlet.out (TokenWriter.ofBuilder b) = .growable content := by
    obtain ⟨⟨name, cs, es, status⟩, outer⟩ := b
    cases status <;> exact ⟨_, rfl⟩
  have htracks := TokenWriter.writer_follows.toTracks.counted (TokenWriter.renderer_even .measuring).toAlike hgrows
  have hends := htracks.deliver_ends limit m
  rw [h] at hends
  have hstart : TokenWriter.renderer.start .emptyMeasuring {} =
      (.ok (), TokenWriter.outlet.inMode .measuring (TokenWriter.ofBuilder {})) := rfl
  obtain ⟨t, hdeliver⟩ : ∃ t, TokenWriter.renderer.deliver limit m
      (TokenWriter.outlet.inMode .measuring (TokenWriter.ofBuilder {})) = (.error e, t) := ⟨_, Prod.ext hends rfl⟩
  have hwhole : (do
      TokenWriter.renderer.start .emptyMeasuring
      TokenWriter.renderer.deliver limit m
      TokenWriter.renderer.finish) {} = (.error e, t) := by
    rw [Step.bind_of_ok hstart, Step.bind_of_error hdeliver]
  obtain ⟨u, hpass⟩ := (Reaches.pass limit TokenWriter.renderer hm hx .emptyMeasuring).failure hwhole
  unfold render
  rw [run_apply, Step.bind_of_error hpass]

theorem render_too_deep (hm : r.Serves m s s') (hx : m.extent ≤ r.extent s) (hp : m.Placed) (hd : limit < m.depth) :
    render limit r s = .error (.tooDeep limit) := by
  have hallows := (TokenWriter.allows_iff m).mpr hp
  cases hfault : m.items.findSome? (TokenWriter.reasons.fault limit) with
  | none =>
    have hle := (Writer.Reasons.items_faultless.mp hfault).1
    exact absurd hd (Nat.not_lt.mpr hle)
  | some e =>
    obtain rfl := Writer.Reasons.fault_of_allowed hallows hfault
    exact render_at_fault hm hx hfault

end Binary

end ClaimRelay
