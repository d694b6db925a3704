import ClaimRelay.Proofs.Binary.Following
import ClaimRelay.Proofs.Binary.RoundTrip
import ClaimRelay.Proofs.Json.Rendering
import ClaimRelay.Proofs.Writer.Sessions

/-!
# Sessions with refusals

A session may go on after requests that were refused. Unless one of the refusals has dropped a frame, what comes out in
the end is what the requests that were taken write alone: a token that is read back, an object without a key twice.
-/

namespace ClaimRelay

variable {ς : Type}

theorem Renderer.Follows.session_output {w : Renderer ς} {s : ς} {image : Builder → ς} {q : Writer.Reasons}
    {output : ClaimSet → List UInt8} {requests : List Writer.Request} {out : Buffer} (hw : w.Follows s image q output)
    (hd : ∀ e, .error e ∈ (w.session requests (w.started s)).1 → ¬e.Drops)
    (hout : (w.finish (w.session requests (w.started s)).2).1 = .ok out) : ∃ answers b m,
      w.answers (Writer.accepted requests (w.session requests (w.started s)).1) (w.started s) =
        (.ok answers, (w.session requests (w.started s)).2) ∧
      Builder.writer.answers (Writer.accepted requests (w.session requests (w.started s)).1) {} = (.ok answers, b) ∧
      b.finish = .ok m ∧ q.Allows m ∧ out = .growable (output m) := by
  rw [hw.started] at hd hout ⊢
  obtain ⟨answers, hanswers⟩ := hw.toFollows.session_accepted Builder.sound_empty hd
  obtain ⟨b, hbuilt, hsound, hclean, hs⟩ :=
    hw.toFollows.answers_ok Builder.sound_empty ⟨trivial, trivial⟩ hanswers
  rw [hs] at hout
  obtain ⟨m, hm, hbytes⟩ := (hw.finish_ok hsound).mp hout
  exact ⟨answers, b, m, hanswers, hbuilt, hm, hclean.allows hm, hbytes⟩

namespace Writer

/-- A session on a token writer that is newly started. -/
def tokenSession (requests : List Request) : List (Except Error (Option Nat)) × Binary.TokenWriter :=
  Binary.TokenWriter.renderer.session requests (Binary.TokenWriter.renderer.started {})

/-- A session on a JSON writer that is newly started. -/
def textSession (l : Json.Layout) (requests : List Request) : List (Except Error (Option Nat)) × Json.TextWriter :=
  Json.TextWriter.renderer.session requests (Json.TextWriter.renderer.started (.ofLayout l))

/-- **Sessions.** -/
theorem session_written (l : Json.Layout) (requests : List Request) :
    ((∀ e, .error e ∈ (tokenSession requests).1 → ¬e.Drops) →
      ∀ out, (Binary.TokenWriter.finish (tokenSession requests).2).1 = .ok out → ∃ answers b m bytes,
        Binary.TokenWriter.renderer.answers (accepted requests (tokenSession requests).1)
          (Binary.TokenWriter.renderer.started {}) = (.ok answers, (tokenSession requests).2) ∧
        Builder.writer.answers (accepted requests (tokenSession requests).1) {} = (.ok answers, b) ∧
        b.finish = .ok m ∧ out = .growable bytes ∧
        Binary.render m.depth Cursor.reader { root := m } = .ok bytes ∧
        (bytes.length < UInt64.size → m.nesting ≤ Binary.maxNesting → Binary.open? bytes = .ok { root := m.named })) ∧
    ((∀ e, .error e ∈ (textSession l requests).1 → ¬e.Drops) →
      ∀ out, (Json.TextWriter.finish (textSession l requests).2).1 = .ok out → ∃ answers b m,
        Json.TextWriter.renderer.answers (accepted requests (textSession l requests).1)
          (Json.TextWriter.renderer.started (.ofLayout l)) = (.ok answers, (textSession l requests).2) ∧
        Builder.writer.answers (accepted requests (textSession l requests).1) {} = (.ok answers, b) ∧
        b.finish = .ok m ∧ out = .growable (Json.document l m.json) ∧
        (l.Spaces → Json.Grammar.Object (m.fields.map Prod.fst) (Json.text l 0 m.json))) := by
  constructor
  · intro hd out hout
    obtain ⟨answers, b, m, hanswers, hbuilt, hm, hq, rfl⟩ :=
      (Binary.TokenWriter.renderer_follows {}).session_output hd hout
    have hplaced := (Binary.TokenWriter.allows_iff m).mp hq
    have hrender : Binary.render m.depth Cursor.reader { root := m } = _ :=
      Binary.render_cursor ⟨Nat.le_refl _, hplaced⟩
    refine ⟨answers, b, m, _, hanswers, hbuilt, hm, rfl, hrender, fun hsize hn => ?_⟩
    unfold Binary.open?
    rw [Binary.decode_tokenNode hplaced hsize, if_pos hn]
    rfl
  · intro hd out hout
    obtain ⟨answers, b, m, hanswers, hbuilt, hm, hq, rfl⟩ :=
      (Json.TextWriter.renderer_follows l).session_output hd hout
    have hdistinct := (Json.TextWriter.allows_iff m).mp hq
    exact ⟨answers, b, m, hanswers, hbuilt, hm, rfl, fun hl => Json.object_text hl hdistinct.wellKeyed 0⟩

/-- A label comes twice, first under a location that has no place there, and the section is started twice. -/
def sampleSession : List Request :=
  [.claim ⟨1, .text "x"⟩, .claim ⟨1, .location { latitude := ⟨0⟩, longitude := ⟨0⟩ }⟩, .startSection, .startSection,
    .token ⟨.json, "b", [0]⟩, .claim ⟨2, .null⟩, .endSection]

def sampleBuilt : ClaimSet := ⟨[⟨1, .text "x"⟩], [.token ⟨.json, "b", [0]⟩]⟩

theorem session_written_sample :
    (∃ bytes, (Binary.TokenWriter.finish (tokenSession sampleSession).2).1 = .ok (.growable bytes) ∧
      Binary.open? bytes = .ok { root := sampleBuilt }) ∧
    (Json.TextWriter.finish (textSession .compact sampleSession).2).1 =
      .ok (.growable (Json.document .compact sampleBuilt.json)) ∧
    Json.Grammar.Object ["1", "submods"] (Json.text .compact 0 sampleBuilt.json) := by
  obtain ⟨htoken, htext⟩ := session_written .compact sampleSession
  have hdrops {answers : List (Except Error (Option Nat))}
      (h : (answers.all fun | .ok _ => true | .error e => !decide e.Drops) = true) :
      ∀ e, .error e ∈ answers → ¬e.Drops := fun e he => by simpa using List.all_eq_true.mp h _ he
  have htokens : accepted sampleSession (tokenSession sampleSession).1 =
      [.claim ⟨1, .text "x"⟩, .startSection, .token ⟨.json, "b", [0]⟩, .endSection] := by
    decide +kernel
  have htexts : accepted sampleSession (textSession .compact sampleSession).1 =
      [.claim ⟨1, .text "x"⟩, .startSection, .token ⟨.json, "b", [0]⟩, .endSection] := by
    decide +kernel
  have htokenBytes : (Binary.TokenWriter.finish (tokenSession sampleSession).2).1 = .ok (.growable
      [0x30, 21, 0xa0, 6, 2, 1, 1, 12, 1, 120, 0xa1, 11, 0xa3, 9, 12, 1, 98, 2, 1, 2, 4, 1, 0]) :=
    ok_of_toOption (by decide +kernel)
  have htextDone : ((Json.TextWriter.finish (textSession .compact sampleSession).2).1.toOption).isSome = true := by
    decide +kernel
  obtain ⟨out, htextBytes⟩ := Option.isSome_iff_exists.mp htextDone
  refine ⟨?_, ?_⟩
  · obtain ⟨answers, b, m, bytes, -, hbuilt, hm, hbytes, -, hopen⟩ := htoken (hdrops (by decide +kernel)) _ htokenBytes
    rw [htokens] at hbuilt
    cases hbuilt
    cases hm
    cases hbytes
    exact ⟨_, htokenBytes, hopen (by decide) (by decide)⟩
  · obtain ⟨answers, b, m, -, hbuilt, hm, hout, hobject⟩ :=
      htext (hdrops (by decide +kernel)) _ (ok_of_toOption htextBytes)
    rw [htexts] at hbuilt
    cases hbuilt
    cases hm
    subst hout
    exact ⟨ok_of_toOption htextBytes, hobject trivial⟩

/-- Ending a section that is not there takes the frame of the submodule off, so that the next end goes to the section
around it. The submodule stays without its end; a builder ends nothing of this. -/
theorem dropped_frames_written :
    ((Binary.TokenWriter.finish (tokenSession
        [.startSection, .openSubmodule "a", .endSection, .endSection, .endSection]).2).1 =
      .ok (.growable [0x30, 0x05, 0xa1, 0x03, 0x0c, 0x01, 0x61]) ∧
      ∃ e, Binary.open? [0x30, 0x05, 0xa1, 0x03, 0x0c, 0x01, 0x61] = .error e) ∧
    ((Json.TextWriter.finish (textSession .compact
        [.startSection, .openSubmodule "a", .endSection, .endSection]).2).1 =
      .ok (.growable (Text.utf8 "\x7b\"submods\":\x7b\"a\":\x7b\x7d\x7d")) ∧
      ∃ e, (Json.TextWriter.renderer.answers
        (accepted [.startSection, .openSubmodule "a", .endSection, .endSection]
          (textSession .compact [.startSection, .openSubmodule "a", .endSection, .endSection]).1)
        (Json.TextWriter.renderer.started (.ofLayout .compact))).1 = .error e) := by
  refine ⟨⟨ok_of_toOption ?_, error_of_toOption ?_⟩, ok_of_toOption ?_, error_of_toOption ?_⟩ <;> decide +kernel

end Writer

end ClaimRelay
