import ClaimRelay.Proofs.Writer.BracketedWords

/-!
# Requests that a builder refuses

A refused request leaves a builder as it was, but for one: closing a submodule while its own section is running takes
the submodule off the levels and then fails. What a session comes to is what the requests that were taken come to
alone; when submodules were lost on the way, without the requests that were made inside of them.
-/

namespace ClaimRelay

/-- Whether the error is reported with a level taken off. -/
def Error.losesLevel : Error → Bool
  | .structural (.closedWithNamedSectionOpen _) => true
  | _ => false

namespace Builder

variable {b b' : Builder} {r : Writer.Request}

/-- Whether a request is to close the innermost submodule while its section is running. -/
def Early (b : Builder) : Writer.Request → Prop
  | .closeSubmodule handle => b.outer ≠ [] ∧ handle = b.outer.length ∧ b.top.status = .running
  | _ => False

def withoutTop (b : Builder) : Builder :=
  match b.outer with
  | [] => b
  | above :: outer => ⟨above, outer⟩

/-! ## One request -/

/-- All that a request can come to. -/
inductive Answered (b : Builder) (r : Writer.Request) : Except Error (Option Nat) → Builder → Prop
  | taken (h : b.InOrder r) : Answered b r (.ok (b.reply r)) (b.next r)
  | refused {misuse : Misuse} (he : ¬b.Early r) (hm : misuse ∉ LevelStack.ofEmpty)
    (hl : (Error.structural misuse).losesLevel = false) : Answered b r (.error (.structural misuse)) b
  | lost (he : b.Early r) :
    Answered b r (.error (.structural (.closedWithNamedSectionOpen b.top.name))) b.withoutTop

theorem answer_of_early (h : b.Early r) : writer.answer r b =
    (.error (.structural (.closedWithNamedSectionOpen b.top.name)), b.withoutTop) := by
  obtain ⟨⟨name, cs, es, status⟩, outer⟩ := b
  cases r with
  | closeSubmodule handle =>
    cases outer with
    | nil => exact absurd rfl h.1
    | cons above outer =>
      obtain ⟨-, hh, hs⟩ : _ ∧ handle = outer.length + 1 ∧ status = .running := h
      have hclose := close_eq ⟨name, cs, es, status⟩ above outer handle
      rw [if_pos hh, if_pos hs] at hclose
      exact Step.bind_of_error hclose
  | _ => exact absurd h id

/-- What is not early is refused before anything is changed, and never for a lack of levels. -/
theorem answer_of_refused (ho : ¬b.InOrder r) (he : ¬b.Early r) :
    ∃ misuse, misuse ∉ LevelStack.ofEmpty ∧ (Error.structural misuse).losesLevel = false ∧
      writer.answer r b = (.error (.structural misuse), b) := by
  obtain ⟨⟨name, cs, es, status⟩, outer⟩ := b
  cases r with
  | claim c =>
    refine ⟨.claimAfterSection c.label, by simp [LevelStack.ofEmpty], rfl, ?_⟩
    cases status <;> first | exact absurd rfl ho | rfl
  | startSection =>
    refine ⟨.sectionAlreadyStarted, by simp [LevelStack.ofEmpty], rfl, ?_⟩
    cases status <;> first | exact absurd rfl ho | rfl
  | endSection =>
    refine ⟨.noSectionOpen, by simp [LevelStack.ofEmpty], rfl, ?_⟩
    cases status <;> first | exact absurd rfl ho | rfl
  | openSubmodule inner =>
    refine ⟨.noSectionOpen, by simp [LevelStack.ofEmpty], rfl, ?_⟩
    cases status <;> first | exact absurd rfl ho | rfl
  | token t =>
    refine ⟨.noSectionOpen, by simp [LevelStack.ofEmpty], rfl, ?_⟩
    cases status <;> first | exact absurd rfl ho | rfl
  | closeSubmodule handle =>
    refine ⟨.closesOtherDepth handle outer.length, by simp [LevelStack.ofEmpty], rfl, ?_⟩
    cases outer with
    | nil => rfl
    | cons above outer =>
      have hh : handle ≠ outer.length + 1 := by
        intro hh
        by_cases hs : status = .running
        · exact he ⟨List.cons_ne_nil _ _, hh, hs⟩
        · exact ho ⟨List.cons_ne_nil _ _, hh, hs⟩
      have hclose := close_eq ⟨name, cs, es, status⟩ above outer handle
      rw [if_neg hh] at hclose
      exact Step.bind_of_error hclose

theorem answered (hb : b.Sound) (r : Writer.Request) :
    Answered b r (writer.answer r b).1 (writer.answer r b).2 := by
  by_cases ho : b.InOrder r
  · rw [answer_of_inOrder hb ho]
    exact .taken ho
  · by_cases he : b.Early r
    · rw [answer_of_early he]
      exact .lost he
    · obtain ⟨misuse, hm, hl, ha⟩ := answer_of_refused ho he
      rw [ha]
      exact .refused he hm hl

theorem Answered.sound {a : Except Error (Option Nat)} (h : Answered b r a b') (hb : b.Sound) : b'.Sound := by
  cases h with
  | taken ho => exact hb.next ho
  | refused => exact hb
  | lost =>
    obtain ⟨top, outer⟩ := b
    cases outer with
    | nil => exact hb
    | cons above outer =>
      obtain ⟨habove, houter⟩ := List.forall_mem_cons.mp hb.running
      exact ⟨houter, fun hp => by cases habove.symm.trans hp⟩

theorem Answered.misuse {misuse : Misuse} (h : Answered b r (.error (.structural misuse)) b') :
    misuse ∉ LevelStack.ofEmpty := by
  cases h with
  | refused _ hm _ => exact hm
  | lost => simp [LevelStack.ofEmpty]

/-! ## Sessions -/

/-- Without its innermost submodule a builder is where the requests before that was opened led to. -/
theorem Takes.withoutTop {requests : List Writer.Request} (h : Takes requests {} b) :
    ∃ before, before.Sublist requests ∧ Takes before {} b.withoutTop := by
  have hspells := spellsSoFar_of_takes h
  obtain ⟨top, outer⟩ := b
  cases hspells with
  | outermost _ _ => exact ⟨requests, .refl _, h⟩
  | inside hb _ _ => exact ⟨_, List.sublist_append_left _ _, hb.takes⟩

theorem session_sound (hb : b.Sound) (requests : List Writer.Request) : (writer.session requests b).2.Sound := by
  induction requests generalizing b with
  | nil => exact hb
  | cons r rest ih => exact ih ((answered hb r).sound hb)

theorem not_mem_session (hb : b.Sound) (requests : List Writer.Request) {misuse : Misuse}
    (hm : misuse ∈ LevelStack.ofEmpty) : .error (.structural misuse) ∉ (writer.session requests b).1 := by
  induction requests generalizing b with
  | nil => exact List.not_mem_nil
  | cons r rest ih =>
    have hr := answered hb r
    rw [Writer.session_cons, List.mem_cons, not_or]
    refine ⟨fun h => ?_, ih (hr.sound hb)⟩
    rw [← h] at hr
    exact hr.misuse hm

/-- A session goes on from what the requests that were taken come to, those apart that went with a submodule. -/
theorem session_kept {kept : List Writer.Request} (h : Takes kept {} b) (requests : List Writer.Request) :
    ∃ more, Takes more {} (writer.session requests b).2 ∧
      more.Sublist (kept ++ Writer.accepted requests (writer.session requests b).1) ∧
      ((∀ e, .error e ∈ (writer.session requests b).1 → e.losesLevel = false) →
        more = kept ++ Writer.accepted requests (writer.session requests b).1) := by
  induction requests generalizing b kept with
  | nil => exact ⟨kept, h, by simp [Writer.accepted], fun _ => by simp [Writer.accepted]⟩
  | cons r rest ih =>
    have hb := h.sound sound_empty
    have hr := answered hb r
    rw [Writer.session_cons]
    generalize writer.answer r b = outcome at hr
    obtain ⟨a, b'⟩ := outcome
    cases hr with
    | taken ho =>
      obtain ⟨more, htakes, hsub, heq⟩ := ih (h.append sound_empty (.one hb ho))
      rw [List.append_assoc] at hsub heq
      exact ⟨more, htakes, hsub, fun hno => heq fun e he => hno e (.tail _ he)⟩
    | refused he hm hl =>
      obtain ⟨more, htakes, hsub, heq⟩ := ih h
      exact ⟨more, htakes, hsub, fun hno => heq fun e he => hno e (.tail _ he)⟩
    | lost he =>
      obtain ⟨before, hbefore, htakes⟩ := h.withoutTop
      obtain ⟨more, htakes, hsub, -⟩ := ih htakes
      refine ⟨more, htakes, hsub.trans ?_, fun hno => ?_⟩
      · exact hbefore.append (.refl _)
      · cases hno _ (.head _)

/-- **Refusals.** All but that of an early close leave the builder as it was. -/
theorem session_after_refusals {requests : List Writer.Request} {answers : List (Except Error (Option Nat))}
    (h : writer.session requests {} = (answers, b)) :
    (∀ r e b', writer.answer r b = (.error e, b') → (¬b.Early r → b' = b) ∧
      (b.Early r → e = .structural (.closedWithNamedSectionOpen b.top.name) ∧ b'.levels = b.outer)) ∧
    ((∀ e, .error e ∈ answers → e.losesLevel = false) →
      ∃ as, writer.answers (Writer.accepted requests answers) {} = (.ok as, b) ∧
        ∀ m, b.finish = .ok m → Writer.Spells 0 (Writer.accepted requests answers) m) ∧
    ∃ kept as, kept.Sublist (Writer.accepted requests answers) ∧ writer.answers kept {} = (.ok as, b) := by
  obtain ⟨kept, ⟨as, htakes⟩, hsub, hkept⟩ := session_kept (.nil {}) requests
  have hsound := session_sound sound_empty requests
  rw [h] at htakes hsub hkept hsound
  refine ⟨fun r e b' hr => ⟨fun he => ?_, fun he => ?_⟩, fun hno => ?_, kept, as, hsub, htakes⟩
  · have hanswered := answered hsound r
    rw [hr] at hanswered
    cases hanswered with
    | refused => rfl
    | lost he' => exact absurd he' he
  · rw [answer_of_early he] at hr
    cases hr
    refine ⟨rfl, ?_⟩
    obtain ⟨top, outer⟩ := b
    cases r with
    | closeSubmodule handle =>
      cases outer with
      | nil => exact absurd rfl he.1
      | cons above outer => rfl
    | _ => exact absurd he id
  · rw [hkept hno, List.nil_append] at htakes
    exact ⟨as, htakes, fun m hm => finishes_iff_spells.mp ⟨b, ⟨as, htakes⟩, hm⟩⟩

/-- Nothing is open that could be closed, then a submodule is closed as another, and a claim comes too late. -/
def refusedRequests : List Writer.Request :=
  [.closeSubmodule 0, .startSection, .openSubmodule "a", .claim ⟨1, .null⟩, .closeSubmodule 2, .closeSubmodule 1,
    .claim ⟨2, .null⟩, .endSection]

def takenRequests : List Writer.Request :=
  [.startSection, .openSubmodule "a", .claim ⟨1, .null⟩, .closeSubmodule 1, .endSection]

def refusedAnswers : List (Except Error (Option Nat)) :=
  [.error (.structural (.closesOtherDepth 0 0)), .ok none, .ok (some 1), .ok none,
    .error (.structural (.closesOtherDepth 2 1)), .ok none, .error (.structural (.claimAfterSection 2)), .ok none]

theorem session_after_refusals_sample : ∃ b as, writer.session refusedRequests {} = (refusedAnswers, b) ∧
    (∀ e, .error e ∈ refusedAnswers → e.losesLevel = false) ∧
    Writer.accepted refusedRequests refusedAnswers = takenRequests ∧ writer.answers takenRequests {} = (.ok as, b) ∧
    b.finish = .ok ⟨[], [.submodule "a" [⟨1, .null⟩] []]⟩ ∧
    Writer.Spells 0 takenRequests ⟨[], [.submodule "a" [⟨1, .null⟩] []]⟩ ∧
    ∀ e b', writer.answer (.claim ⟨3, .null⟩) b = (.error e, b') → b' = b := by
  have hsession : writer.session refusedRequests {} =
    (refusedAnswers, ⟨⟨"", [], [.submodule "a" [⟨1, .null⟩] []], .ended⟩, []⟩) := rfl
  have hno : ∀ e, .error e ∈ refusedAnswers → e.losesLevel = false := by simp [refusedAnswers, Error.losesLevel]
  obtain ⟨hrefused, hkept, -⟩ := session_after_refusals hsession
  obtain ⟨as, htaken, hspells⟩ := hkept hno
  exact ⟨_, as, hsession, hno, rfl, htaken, rfl, hspells _ rfl, fun e b' hr => (hrefused _ e b' hr).1 id⟩

/-- A submodule that is closed before its own section is lost, and the next end is taken for the section around it. -/
theorem closed_early_lost :
    (∃ b b', Takes [.startSection, .openSubmodule "a", .startSection] {} b ∧
      writer.answer (.closeSubmodule 1) b = (.error (.structural (.closedWithNamedSectionOpen "a")), b') ∧
      b.levels.length = 2 ∧ b'.levels.length = 1) ∧
    (writer.session [.startSection, .openSubmodule "a", .startSection, .closeSubmodule 1, .endSection] {}).2.finish =
      .ok ⟨[], []⟩ ∧
    (writer.session [.startSection, .openSubmodule "a", .startSection, .endSection] {}).2.finish =
      .error (.structural (.submodulesStillOpen 1)) :=
  ⟨⟨_, _, ⟨_, rfl⟩, rfl, rfl, rfl⟩, rfl, rfl⟩

end Builder

end ClaimRelay
