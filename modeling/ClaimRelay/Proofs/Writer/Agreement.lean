import ClaimRelay.Proofs.Binary.Following
import ClaimRelay.Proofs.Binary.RoundTrip
import ClaimRelay.Proofs.Json.Rendering
import ClaimRelay.Proofs.Writer.Sessions

/-!
# The writers agree

A builder, a token writer and a JSON writer take the same requests, but for those that only the one format or only
the other has no place for. What the two write is what they write of the claim set that was built.
-/

namespace ClaimRelay

/-- A location under a label that is not its own. -/
def Writer.Request.Misplaced : Writer.Request → Prop
  | .claim c => ¬c.Placed
  | _ => False

/-- A label or a name that there is at the innermost level already. -/
def Builder.Repeats (b : Builder) : Writer.Request → Prop
  | .claim c => c.label ∈ b.top.claims.map Claim.label
  | .openSubmodule name => name ∈ b.top.entries.map Entry.name
  | .token t => t.name ∈ b.top.entries.map Entry.name
  | _ => False

namespace Writer

variable {b : Builder} {r : Request}

theorem refusal_of_token : Binary.TokenWriter.reasons.refusal b r = none ↔ ¬r.Misplaced := by
  cases r with
  | claim c => exact Binary.TokenWriter.reasons_claim_eq_none.trans Classical.not_not.symm
  | _ => exact iff_of_true rfl nofun

theorem refusal_of_text : Json.TextWriter.reasons.refusal b r = none ↔ ¬b.Repeats r := by
  cases r with
  | claim c => exact Json.TextWriter.reasons_claim_eq_none
  | openSubmodule name => exact Json.TextWriter.reasons_name_eq_none
  | token t => exact Json.TextWriter.reasons_name_eq_none
  | _ => exact iff_of_true rfl nofun

/-- **Agreement.** After requests that all three have taken, from a new builder and newly started writers. -/
theorem writers_agree (l : Json.Layout) (requests : List Request) {built tokens texts : List (Option Nat)} {b : Builder}
    {s : Binary.TokenWriter} {t : Json.TextWriter}
    (hb : Builder.writer.answers requests {} = (.ok built, b))
    (hs : Binary.TokenWriter.renderer.answers requests (Binary.TokenWriter.renderer.started {}) = (.ok tokens, s))
    (ht : Json.TextWriter.renderer.answers requests (Json.TextWriter.renderer.started (.ofLayout l)) = (.ok texts, t)) :
    (tokens = built ∧ texts = built) ∧
    (∀ r a, (Binary.TokenWriter.renderer.answer r s).1 = .ok a ↔
      (Builder.writer.answer r b).1 = .ok a ∧ ¬r.Misplaced) ∧
    (∀ r a, (Json.TextWriter.renderer.answer r t).1 = .ok a ↔
      (Builder.writer.answer r b).1 = .ok a ∧ ¬b.Repeats r) ∧
    ((∃ out, (Binary.TokenWriter.finish s).1 = .ok out) ↔ ∃ m, b.finish = .ok m) ∧
    ((∃ out, (Json.TextWriter.finish t).1 = .ok out) ↔ ∃ m, b.finish = .ok m) ∧
    ∀ m, b.finish = .ok m → ∀ limit, m.depth ≤ limit →
      (∃ bytes, (Binary.TokenWriter.finish s).1 = .ok (.growable bytes) ∧
        Binary.render limit Cursor.reader { root := m } = .ok bytes) ∧
      ∃ bytes, (Json.TextWriter.finish t).1 = .ok (.growable bytes) ∧
        Json.render l limit Cursor.reader { root := m } = .ok bytes := by
  have hw := Binary.TokenWriter.renderer_follows {}
  have hv := Json.TextWriter.renderer_follows l
  rw [hw.started] at hs
  rw [hv.started] at ht
  obtain ⟨b₁, hb₁, hsound, hplaced, rfl⟩ := hw.toFollows.answers_ok Builder.sound_empty ⟨trivial, trivial⟩ hs
  obtain ⟨b₂, hb₂, -, hdistinct, rfl⟩ := hv.toFollows.answers_ok Builder.sound_empty ⟨trivial, trivial⟩ ht
  -- both writers are images of what was built, which is one builder
  cases hb.symm.trans hb₁
  cases hb.symm.trans hb₂
  refine ⟨⟨rfl, rfl⟩, ?_, ?_, ?_, ?_, ?_⟩
  · intro r a
    rw [hw.toFollows.answer_ok_iff hsound, refusal_of_token]
  · intro r a
    rw [hv.toFollows.answer_ok_iff hsound, refusal_of_text]
  · exact hw.finishes_iff hsound
  · exact hv.finishes_iff hsound
  · intro m hm limit hlimit
    have hp : m.Placed := (Binary.TokenWriter.allows_iff m).mp (hplaced.allows hm)
    have hfaultless := Writer.Reasons.items_faultless.mpr ⟨hlimit, hdistinct.allows hm⟩
    have htext : Json.render l limit Cursor.reader { root := m } = .ok (Json.document l m.json) := by
      rw [Json.render_eq, hfaultless]
    exact ⟨⟨_, hw.finishes hsound hm, Binary.render_cursor ⟨hlimit, hp⟩⟩, _, hv.finishes hsound hm, htext⟩

/-- A section that stays empty, a submodule, and a nested token. -/
def sampleRequests : List Request :=
  [.claim ⟨1, .text "x"⟩, .startSection, .openSubmodule "a", .startSection, .endSection, .closeSubmodule 1,
    .token ⟨.json, "b", [0]⟩, .endSection]

def sampleAnswers : List (Option Nat) := [none, none, some 1, none, none, none, none, none]

theorem writers_agree_sample : ∃ b s t m, Builder.writer.answers sampleRequests {} = (.ok sampleAnswers, b) ∧
    Binary.TokenWriter.renderer.answers sampleRequests (Binary.TokenWriter.renderer.started {}) =
      (.ok sampleAnswers, s) ∧
    Json.TextWriter.renderer.answers sampleRequests (Json.TextWriter.renderer.started (.ofLayout .pretty)) =
      (.ok sampleAnswers, t) ∧
    b.finish = .ok m ∧
    (∃ bytes, (Binary.TokenWriter.finish s).1 = .ok (.growable bytes) ∧
      Binary.render 1 Cursor.reader { root := m } = .ok bytes) ∧
    ∃ bytes, (Json.TextWriter.finish t).1 = .ok (.growable bytes) ∧
      Json.render .pretty 1 Cursor.reader { root := m } = .ok bytes := by
  have hpair {α β : Type} {x : Except Error α × β} {a : α} (h : x.1.toOption = some a) : x = (.ok a, x.2) :=
    Prod.ext (ok_of_toOption h) rfl
  have hb : Builder.writer.answers sampleRequests {} = (.ok sampleAnswers, _) := hpair (by decide +kernel)
  have hs : Binary.TokenWriter.renderer.answers sampleRequests (Binary.TokenWriter.renderer.started {}) =
      (.ok sampleAnswers, _) := hpair (by decide +kernel)
  have ht : Json.TextWriter.renderer.answers sampleRequests (Json.TextWriter.renderer.started (.ofLayout .pretty)) =
      (.ok sampleAnswers, _) := hpair (by decide +kernel)
  have hm : (Builder.writer.answers sampleRequests {}).2.finish =
      .ok ⟨[⟨1, .text "x"⟩], [.submodule "a" [] [], .token ⟨.json, "b", [0]⟩]⟩ := rfl
  obtain ⟨-, -, -, -, -, hwhole⟩ := writers_agree .pretty sampleRequests hb hs ht
  obtain ⟨htokens, htexts⟩ := hwhole _ hm 1 (Nat.le_refl 1)
  exact ⟨_, _, _, _, hb, hs, ht, hm, htokens, htexts⟩

end Writer

end ClaimRelay
