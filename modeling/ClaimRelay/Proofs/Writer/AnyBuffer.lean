import ClaimRelay.Proofs.Binary.Modes
import ClaimRelay.Proofs.Json.Modes

/-!
# Writers on buffers of any kind

Counting first and writing then is exact because neither writer can tell the buffers apart.
-/

namespace ClaimRelay.Renderer

/-- **Any buffer.** Of a token writer and of a JSON writer that are new. -/
theorem any_buffer (l : Json.Layout) : Binary.TokenWriter.renderer.Unmoved Binary.TokenWriter.outlet {} ∧
    Json.TextWriter.renderer.Unmoved Json.TextWriter.outlet (.ofLayout l) :=
  ⟨Even.unmoved Binary.TokenWriter.renderer_even {}, Even.unmoved Json.TextWriter.renderer_even (.ofLayout l)⟩

/-- A claim, and a submodule that closes with two headers at once. -/
def sampleToken : List Writer.Request :=
  [.claim ⟨1, .text "x"⟩, .startSection, .openSubmodule "a", .closeSubmodule 1, .endSection]

/-- There is room for the name of the submodule and not for its headers. -/
theorem any_buffer_short :
    let growing := (Binary.TokenWriter.renderer.outcomes Binary.TokenWriter.outlet
      (Call.token .emptyGrowable sampleToken) {}).1
    let bounded := (Binary.TokenWriter.renderer.outcomes Binary.TokenWriter.outlet
      (Call.token (.emptyFixed 12) sampleToken) {}).1
    growing.getLast? = some ⟨.ok none, .growable
      [0x30, 0x11, 0xa0, 6, 2, 1, 1, 12, 1, 120, 0xa1, 7, 0xa2, 5, 12, 1, 97, 0x30, 0]⟩ ∧
    ∃ before g after before' f after', growing = before ++ g :: after ∧ bounded = before' ++ f :: after' ∧
      before'.map Outcome.seen = before.map Outcome.seen ∧ (∀ x ∈ before, x.out.size ≤ 12) ∧ 12 < g.out.size ∧
      ∃ e, f.answer = .error e := by
  intro growing bounded
  have hlast : growing.getLast? = some ⟨.ok none, .growable
      [0x30, 0x11, 0xa0, 6, 2, 1, 1, 12, 1, 120, 0xa1, 7, 0xa2, 5, 12, 1, 97, 0x30, 0]⟩ := rfl
  exact ⟨hlast, ((any_buffer .compact).1.bounded 12 sampleToken _ hlast).short (by decide)⟩

end ClaimRelay.Renderer
