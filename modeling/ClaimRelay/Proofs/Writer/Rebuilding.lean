import ClaimRelay.Proofs.Writer.LostLevels

/-!
# Building again what is walked through

A builder takes whatever is in order, so a walk into it fails only for the limit, and leaves it with the claim set that
the cursor stood at the beginning of. With this a builder is described whole: the words it takes, the levels it has
after any calls, and what comes of a walk.
-/

namespace ClaimRelay

/-! ## A builder refuses nothing that is in order -/

namespace Writer.Reasons

def never : Reasons := ⟨fun _ _ => none, fun _ _ => none⟩

theorem refusal_never (b : Builder) (r : Request) : never.refusal b r = none := by
  cases r <;> rfl

theorem allowsClaims_never (before cs : List Claim) : never.AllowsClaims before cs := by
  induction cs generalizing before with
  | nil => trivial
  | cons c cs ih => exact ⟨rfl, ih _⟩

mutual

theorem allowsEntry_never : ∀ e : Entry, never.AllowsEntry e
  | .submodule _ cs es => ⟨allowsClaims_never [] cs, allowsEntries_never es []⟩
  | .token _ => trivial

theorem allowsEntries_never : ∀ (es : List Entry) (before : List String), never.AllowsEntries before es
  | [], _ => trivial
  | e :: rest, before => ⟨rfl, allowsEntry_never e, allowsEntries_never rest (before ++ [e.name])⟩

end

end Writer.Reasons

theorem Builder.writer_tracks : Builder.writer.Tracks id .never where
  takes hb h _ := Builder.answer_of_inOrder hb h
  refuses _ _ hr := by
    rw [Writer.Reasons.refusal_never] at hr
    cases hr

/-! ## Walks into a builder -/

theorem Walk.run_built (m : ClaimSet) {limit : Nat} (h : m.depth ≤ limit) : ∃ c,
    run limit Cursor.reader.onFst Builder.writer.onSnd ({ root := m }, {}) =
      (.ok (), (c, ⟨{ claims := m.claims, entries := m.entries, status := .ended }, []⟩)) := by
  have hallowed : Writer.Reasons.never.Allows m :=
    ⟨Writer.Reasons.allowsClaims_never [] m.claims, Writer.Reasons.allowsEntries_never m.entries []⟩
  have hends := Builder.writer_tracks.deliver_ends limit m
  rw [Writer.Reasons.items_faultless.mpr ⟨h, hallowed⟩] at hends
  have hserves : Cursor.reader.Serves m { root := m } _ := Cursor.serves (Cursor.stands_start m) (Nat.zero_le _)
  have hwalk : Reaches (proceed limit Cursor.reader.onFst Builder.writer.onSnd m.extent beginning)
      { root := m } _ _ _ :=
    .deliver hserves (Nat.le_refl _)
  exact ⟨_, hwalk.answer hends⟩

/-! ## Builders -/

/-- What a session comes to with all levels on one stack, next to a builder. -/
structure LevelStack.Steady (requests : List Writer.Request) : Prop where
  session : LevelStack.writer.session requests [{}] =
    ((Builder.writer.session requests {}).1, (Builder.writer.session requests {}).2.levels)
  finish : LevelStack.finish (LevelStack.writer.session requests [{}]).2 = (Builder.writer.session requests {}).2.finish
  innermost : (LevelStack.writer.session requests [{}]).2 ≠ []
  running : ∀ level ∈ (LevelStack.writer.session requests [{}]).2.tail, level.status = .running
  unreported : ∀ misuse ∈ LevelStack.ofEmpty,
    .error (.structural misuse) ∉ (LevelStack.writer.session requests [{}]).1 ∧
      LevelStack.finish (LevelStack.writer.session requests [{}]).2 ≠ .error (.structural misuse)

theorem Builder.finish_reported (b : Builder) {misuse : Misuse} (hm : misuse ∈ LevelStack.ofEmpty) :
    b.finish ≠ .error (.structural misuse) := by
  unfold Builder.finish
  intro h
  split at h
  · cases h
    simp [LevelStack.ofEmpty] at hm
  · split at h
    · cases h
      simp [LevelStack.ofEmpty] at hm
    · cases h

theorem LevelStack.steady (requests : List Writer.Request) : LevelStack.Steady requests := by
  have hsession : LevelStack.writer.session requests [{}] = _ := Builder.session_levels requests {}
  have hfinish := Builder.finish_levels (Builder.writer.session requests {}).2
  have hsound := Builder.session_sound Builder.sound_empty requests
  constructor
  case session => exact hsession
  all_goals rw [hsession]
  case finish => exact hfinish
  case innermost => exact List.cons_ne_nil _ _
  case running => exact hsound.running
  case unreported =>
    intro misuse hm
    rw [hfinish]
    exact ⟨Builder.not_mem_session Builder.sound_empty requests hm, Builder.finish_reported _ hm⟩

/-- **Building.** A builder takes what spells the claim set it finishes with, and a walk into one is a copy. -/
theorem Builder.builds :
    (∀ requests m, (∃ as b, writer.answers requests {} = (.ok as, b) ∧ b.finish = .ok m) ↔
      Writer.Spells 0 requests m) ∧
    (∀ requests, LevelStack.Steady requests) ∧
    ∀ (m : ClaimSet) limit, m.depth ≤ limit → ∃ c b,
      Walk.run limit Cursor.reader.onFst writer.onSnd ({ root := m }, {}) = (.ok (), (c, b)) ∧ b.finish = .ok m := by
  refine ⟨fun requests m => ?_, LevelStack.steady, fun m limit h => ?_⟩
  · rw [← finishes_iff_spells]
    constructor
    · rintro ⟨as, b, htakes, hm⟩
      exact ⟨b, ⟨as, htakes⟩, hm⟩
    · rintro ⟨b, ⟨as, htakes⟩, hm⟩
      exact ⟨as, b, htakes, hm⟩
  · obtain ⟨c, hrun⟩ := Walk.run_built m h
    exact ⟨c, _, hrun, rfl⟩

/-- A submodule without a section, one with a section that stays empty, under the same name, and a token. -/
def twins : ClaimSet where
  claims := [⟨1, .int 5⟩]
  entries := [.submodule "a" [⟨2, .null⟩] [], .submodule "a" [] [], .token ⟨.other 1, "a", [0]⟩]

def twinRequests : List Writer.Request :=
  [.claim ⟨1, .int 5⟩, .startSection, .openSubmodule "a", .claim ⟨2, .null⟩, .closeSubmodule 1, .openSubmodule "a",
    .startSection, .endSection, .closeSubmodule 1, .token ⟨.other 1, "a", [0]⟩, .endSection]

theorem builds_twins : Writer.Spells 0 twinRequests twins ∧ twins.depth ≤ 1 ∧
    (∃ as b, Builder.writer.answers twinRequests {} = (.ok as, b) ∧ b.finish = .ok twins) ∧
    ∃ c b, Walk.run 1 Cursor.reader.onFst Builder.writer.onSnd ({ root := twins }, {}) = (.ok (), (c, b)) ∧
      b.finish = .ok twins := by
  have hdepth : twins.depth ≤ 1 := Nat.le_refl 1
  have hfirst : Writer.SpellsEntry 0 [.openSubmodule "a", .claim ⟨2, .null⟩, .closeSubmodule 1]
    (.submodule "a" [⟨2, .null⟩] []) := .submodule "a" (.claims 1 [⟨2, .null⟩])
  have hsecond : Writer.SpellsEntry 0 [.openSubmodule "a", .startSection, .endSection, .closeSubmodule 1]
    (.submodule "a" [] []) := .submodule "a" (.withSection [] (.nil 1))
  have hword : Writer.Spells 0 twinRequests twins :=
    .withSection [⟨1, .int 5⟩] (.concat (.concat (.concat (.nil 0) hfirst) hsecond) (.token 0 _))
  obtain ⟨hwords, -, hwalks⟩ := Builder.builds
  exact ⟨hword, hdepth, (hwords twinRequests twins).mpr hword, hwalks twins 1 hdepth⟩

end ClaimRelay
