import ClaimRelay.Proofs.Writer.Delivering
import ClaimRelay.Proofs.Writer.LevelStack
import ClaimRelay.Proofs.Writer.Sessions

/-!
# What a builder takes

The requests that put a claim set are words of a grammar with brackets: `Spells`. A builder, which has a stack of
levels and no grammar, takes exactly these and finishes with the claim set that they spell.
-/

namespace ClaimRelay

namespace Writer

mutual

/-- The words of a claim set, which is inside of so many submodules: its claims, then no section or one. -/
inductive Spells : Nat → List Request → ClaimSet → Prop
  | claims (depth : Nat) (cs : List Claim) : Spells depth (cs.map .claim) ⟨cs, []⟩
  | withSection {depth : Nat} {requests : List Request} {es : List Entry} (cs : List Claim)
    (h : SpellsEntries depth requests es) :
    Spells depth (cs.map .claim ++ .startSection :: (requests ++ [.endSection])) ⟨cs, es⟩

inductive SpellsEntries : Nat → List Request → List Entry → Prop
  | nil (depth : Nat) : SpellsEntries depth [] []
  | concat {depth : Nat} {requests more : List Request} {es : List Entry} {e : Entry}
    (h : SpellsEntries depth requests es) (he : SpellsEntry depth more e) :
    SpellsEntries depth (requests ++ more) (es ++ [e])

/-- A submodule is closed with the depth to which it was opened. -/
inductive SpellsEntry : Nat → List Request → Entry → Prop
  | token (depth : Nat) (t : NestedToken) : SpellsEntry depth [.token t] (.token t)
  | submodule {depth : Nat} {requests : List Request} {cs : List Claim} {es : List Entry} (name : String)
    (h : Spells (depth + 1) requests ⟨cs, es⟩) :
    SpellsEntry depth (.openSubmodule name :: (requests ++ [.closeSubmodule (depth + 1)])) (.submodule name cs es)

end

end Writer

namespace Builder

/-! ## Words are taken -/

/-- Whether all of the requests are answered, and lead from the one builder to the other. -/
def Takes (requests : List Writer.Request) (b b' : Builder) : Prop := ∃ as, writer.answers requests b = (.ok as, b')

variable {b b' b'' : Builder} {r : Writer.Request} {requests more : List Writer.Request}

theorem Takes.nil (b : Builder) : Takes [] b b := ⟨[], rfl⟩

theorem takes_cons (hb : b.Sound) : Takes (r :: requests) b b' ↔ b.InOrder r ∧ Takes requests (b.next r) b' := by
  constructor
  · rintro ⟨as, h⟩
    obtain ⟨a, u, rest, hr, hrest, -⟩ := Writer.answers_cons_ok.mp h
    by_cases ho : b.InOrder r
    · rw [answer_of_inOrder hb ho] at hr
      cases hr
      exact ⟨ho, rest, hrest⟩
    · obtain ⟨e, u', he⟩ := answer_of_not_inOrder ho
      rw [he] at hr
      cases hr
  · rintro ⟨ho, rest, hrest⟩
    exact ⟨_, Writer.answers_cons_ok.mpr ⟨_, _, rest, answer_of_inOrder hb ho, hrest, rfl⟩⟩

theorem Takes.one (hb : b.Sound) (ho : b.InOrder r) : Takes [r] b (b.next r) :=
  (takes_cons hb).mpr ⟨ho, .nil _⟩

theorem Takes.sound (h : Takes requests b b') (hb : b.Sound) : b'.Sound := by
  induction requests generalizing b with
  | nil =>
    obtain ⟨as, h⟩ := h
    cases h
    exact hb
  | cons r rest ih =>
    obtain ⟨ho, hrest⟩ := (takes_cons hb).mp h
    exact ih hrest (hb.next ho)

theorem Takes.append (h : Takes requests b b') (hb : b.Sound) (h' : Takes more b' b'') :
    Takes (requests ++ more) b b'' := by
  induction requests generalizing b with
  | nil =>
    obtain ⟨as, h⟩ := h
    cases h
    exact h'
  | cons r rest ih =>
    obtain ⟨ho, hrest⟩ := (takes_cons hb).mp h
    exact (takes_cons hb).mpr ⟨ho, ih hrest (hb.next ho)⟩

theorem takes_claims {outer : List OpenLevel} (ho : ∀ level ∈ outer, level.status = .running) (name : String)
    (cs new : List Claim) : Takes (new.map .claim) ⟨⟨name, cs, [], .pending⟩, outer⟩
      ⟨⟨name, cs ++ new, [], .pending⟩, outer⟩ := by
  induction new generalizing cs with
  | nil =>
    rw [List.append_nil]
    exact .nil _
  | cons c new ih =>
    rw [List.append_cons]
    exact (takes_cons ⟨ho, fun _ => rfl⟩).mpr ⟨rfl, ih _⟩

theorem takes_opened {outer : List OpenLevel} {es : List Entry} (ho : ∀ level ∈ outer, level.status = .running)
    (name : String) (cs : List Claim)
    (h : Takes requests ⟨⟨name, cs, [], .running⟩, outer⟩ ⟨⟨name, cs, es, .running⟩, outer⟩) :
    Takes (cs.map .claim ++ .startSection :: requests) ⟨{ name }, outer⟩ ⟨⟨name, cs, es, .running⟩, outer⟩ := by
  have hempty : Sound ⟨{ name }, outer⟩ := ⟨ho, fun _ => rfl⟩
  have hclaims := takes_claims ho name [] cs
  exact hclaims.append hempty ((takes_cons (hclaims.sound hempty)).mpr ⟨rfl, h⟩)

theorem takes_ended {outer : List OpenLevel} {es : List Entry} (ho : ∀ level ∈ outer, level.status = .running)
    (name : String) (cs : List Claim)
    (h : Takes requests ⟨⟨name, cs, [], .running⟩, outer⟩ ⟨⟨name, cs, es, .running⟩, outer⟩) :
    Takes (cs.map .claim ++ .startSection :: (requests ++ [.endSection])) ⟨{ name }, outer⟩
      ⟨⟨name, cs, es, .ended⟩, outer⟩ := by
  rw [← List.cons_append, ← List.append_assoc]
  exact (takes_opened ho name cs h).append ⟨ho, fun _ => rfl⟩ (.one ⟨ho, nofun⟩ rfl)

mutual

theorem takes_word : ∀ {depth : Nat} {requests : List Writer.Request} {m : ClaimSet},
    Writer.Spells depth requests m → ∀ (name : String) {outer : List OpenLevel}, outer.length = depth →
    (∀ level ∈ outer, level.status = .running) → ∃ status, status ≠ .running ∧ (status = .pending → m.entries = []) ∧
      Takes requests ⟨{ name }, outer⟩ ⟨⟨name, m.claims, m.entries, status⟩, outer⟩
  | _, _, _, .claims _ cs, name, _, _, ho => ⟨.pending, nofun, fun _ => rfl, takes_claims ho name [] cs⟩
  | _, _, _, .withSection cs h, name, _, hd, ho =>
    ⟨.ended, nofun, nofun, takes_ended ho name cs (takes_entries h name cs hd ho)⟩

theorem takes_entries : ∀ {depth : Nat} {requests : List Writer.Request} {es : List Entry},
    Writer.SpellsEntries depth requests es → ∀ (name : String) (cs : List Claim) {outer : List OpenLevel},
    outer.length = depth → (∀ level ∈ outer, level.status = .running) →
    Takes requests ⟨⟨name, cs, [], .running⟩, outer⟩ ⟨⟨name, cs, es, .running⟩, outer⟩
  | _, _, _, .nil _, _, _, _, _, _ => .nil _
  | _, _, _, .concat h he, name, cs, _, hd, ho =>
    (takes_entries h name cs hd ho).append ⟨ho, nofun⟩ (takes_entry he name cs _ hd ho)

theorem takes_entry : ∀ {depth : Nat} {requests : List Writer.Request} {e : Entry},
    Writer.SpellsEntry depth requests e → ∀ (name : String) (cs : List Claim) (es : List Entry)
    {outer : List OpenLevel}, outer.length = depth → (∀ level ∈ outer, level.status = .running) →
    Takes requests ⟨⟨name, cs, es, .running⟩, outer⟩ ⟨⟨name, cs, es ++ [e], .running⟩, outer⟩
  | _, _, _, .token _ _, _, _, _, _, _, ho => .one ⟨ho, nofun⟩ rfl
  | _, _, _, .submodule inner h, name, cs, es, outer, hd, ho => by
    have hin : ∀ level ∈ ⟨name, cs, es, .running⟩ :: outer, level.status = .running :=
      List.forall_mem_cons.mpr ⟨rfl, ho⟩
    have haround : Sound ⟨⟨name, cs, es, .running⟩, outer⟩ := ⟨ho, nofun⟩
    have hinside : Sound ⟨{ name := inner }, ⟨name, cs, es, .running⟩ :: outer⟩ := ⟨hin, fun _ => rfl⟩
    obtain ⟨status, hs, -, hword⟩ := takes_word h inner (congrArg (· + 1) hd) hin
    subst hd
    apply (takes_cons haround).mpr
    exact ⟨rfl, hword.append hinside (.one (hword.sound hinside) ⟨nofun, rfl, hs⟩)⟩

end

/-! ## What is taken is a word -/

/-- What has been put of a level that is inside of so many submodules. -/
inductive SpellsLevel (depth : Nat) : List Writer.Request → OpenLevel → Prop
  | pending (name : String) (cs : List Claim) : SpellsLevel depth (cs.map .claim) ⟨name, cs, [], .pending⟩
  | running {requests : List Writer.Request} {es : List Entry} (name : String) (cs : List Claim)
    (h : Writer.SpellsEntries depth requests es) :
    SpellsLevel depth (cs.map .claim ++ .startSection :: requests) ⟨name, cs, es, .running⟩
  | ended {requests : List Writer.Request} {es : List Entry} (name : String) (cs : List Claim)
    (h : Writer.SpellsEntries depth requests es) :
    SpellsLevel depth (cs.map .claim ++ .startSection :: (requests ++ [.endSection])) ⟨name, cs, es, .ended⟩

/-- The beginnings of words: those of a submodule that is open come after what led to the levels around it. -/
inductive SpellsSoFar : List Writer.Request → OpenLevel → List OpenLevel → Prop
  | outermost {requests : List Writer.Request} {top : OpenLevel} (h : SpellsLevel 0 requests top)
    (hn : top.name = "") : SpellsSoFar requests top []
  | inside {before inner : List Writer.Request} {top above : OpenLevel} {outer : List OpenLevel}
    (hb : SpellsSoFar before above outer) (hs : above.status = .running)
    (h : SpellsLevel (outer.length + 1) inner top) :
    SpellsSoFar (before ++ .openSubmodule top.name :: inner) top (above :: outer)

theorem SpellsLevel.word {depth : Nat} {top : OpenLevel} (h : SpellsLevel depth requests top)
    (hs : top.status ≠ .running) : Writer.Spells depth requests ⟨top.claims, top.entries⟩ := by
  cases h with
  | pending name cs => exact .claims depth cs
  | running name cs h => exact absurd rfl hs
  | ended name cs h => exact .withSection cs h

theorem SpellsLevel.withEntry {depth : Nat} {top : OpenLevel} {e : Entry} (h : SpellsLevel depth requests top)
    (hs : top.status = .running) (he : Writer.SpellsEntry depth more e) :
    SpellsLevel depth (requests ++ more) (withEntry top e) := by
  cases h with
  | pending name cs => cases hs
  | running name cs h =>
    rw [List.append_assoc, List.cons_append]
    exact .running name cs (.concat h he)
  | ended name cs h => cases hs

theorem SpellsLevel.claim {depth : Nat} {top : OpenLevel} (h : SpellsLevel depth requests top)
    (hs : top.status = .pending) (c : Claim) :
    SpellsLevel depth (requests ++ [.claim c]) { top with claims := top.claims ++ [c] } := by
  cases h with
  | pending name cs =>
    rw [← List.map_singleton, ← List.map_append]
    exact .pending name (cs ++ [c])
  | running name cs h => cases hs
  | ended name cs h => cases hs

theorem SpellsLevel.startSection {depth : Nat} {top : OpenLevel} (h : SpellsLevel depth requests top)
    (hs : top.status = .pending) : SpellsLevel depth (requests ++ [.startSection]) { top with status := .running } := by
  cases h with
  | pending name cs => exact .running name cs (.nil depth)
  | running name cs h => cases hs
  | ended name cs h => cases hs

theorem SpellsLevel.endSection {depth : Nat} {top : OpenLevel} (h : SpellsLevel depth requests top)
    (hs : top.status = .running) : SpellsLevel depth (requests ++ [.endSection]) { top with status := .ended } := by
  cases h with
  | pending name cs => cases hs
  | running name cs h =>
    rw [List.append_assoc, List.cons_append]
    exact .ended name cs h
  | ended name cs h => cases hs

theorem SpellsSoFar.grow {top top' : OpenLevel} {outer : List OpenLevel} (h : SpellsSoFar requests top outer)
    (hn : top'.name = top.name)
    (hl : ∀ inner, SpellsLevel outer.length inner top → SpellsLevel outer.length (inner ++ more) top') :
    SpellsSoFar (requests ++ more) top' outer := by
  cases h with
  | outermost h hroot => exact .outermost (hl _ h) (hn.trans hroot)
  | inside hb hs h =>
    rw [List.append_assoc, List.cons_append, ← hn]
    exact .inside hb hs (hl _ h)

theorem SpellsSoFar.next (h : SpellsSoFar requests b.top b.outer) (ho : b.InOrder r) :
    SpellsSoFar (requests ++ [r]) (b.next r).top (b.next r).outer := by
  obtain ⟨top, outer⟩ := b
  cases r with
  | claim c => exact h.grow rfl fun _ hl => hl.claim ho c
  | startSection => exact h.grow rfl fun _ hl => hl.startSection ho
  | endSection => exact h.grow rfl fun _ hl => hl.endSection ho
  | token t => exact h.grow rfl fun _ hl => hl.withEntry ho (.token _ t)
  | openSubmodule name => exact .inside h ho (.pending name [])
  | closeSubmodule handle =>
    -- the word of the submodule is whole, and becomes a part of that of the level around it
    cases h with
    | outermost _ _ => exact absurd rfl ho.1
    | inside hb hs h =>
      obtain ⟨-, rfl, hstatus⟩ := ho
      rw [List.append_assoc, List.cons_append]
      exact hb.grow rfl fun _ hl => hl.withEntry hs (.submodule _ (h.word hstatus))

theorem Takes.spells (h : Takes more b b') (hb : b.Sound) (hs : SpellsSoFar requests b.top b.outer) :
    SpellsSoFar (requests ++ more) b'.top b'.outer := by
  induction more generalizing b requests with
  | nil =>
    obtain ⟨as, h⟩ := h
    cases h
    rw [List.append_nil]
    exact hs
  | cons r rest ih =>
    obtain ⟨ho, hrest⟩ := (takes_cons hb).mp h
    rw [List.append_cons]
    exact ih hrest (hb.next ho) (hs.next ho)

theorem SpellsLevel.takes {depth : Nat} {top : OpenLevel} {outer : List OpenLevel}
    (h : SpellsLevel depth requests top) (hd : outer.length = depth) (ho : ∀ level ∈ outer, level.status = .running) :
    Takes requests ⟨{ name := top.name }, outer⟩ ⟨top, outer⟩ := by
  cases h with
  | pending name cs => exact takes_claims ho name [] cs
  | running name cs h => exact takes_opened ho name cs (takes_entries h name cs hd ho)
  | ended name cs h => exact takes_ended ho name cs (takes_entries h name cs hd ho)

theorem SpellsSoFar.running {top : OpenLevel} {outer : List OpenLevel} (h : SpellsSoFar requests top outer) :
    ∀ level ∈ outer, level.status = .running := by
  induction h with
  | outermost _ _ => exact List.forall_mem_nil _
  | inside _ hs _ ih => exact List.forall_mem_cons.mpr ⟨hs, ih⟩

theorem SpellsSoFar.takes {top : OpenLevel} {outer : List OpenLevel} (h : SpellsSoFar requests top outer) :
    Takes requests {} ⟨top, outer⟩ := by
  induction h with
  | outermost h hn =>
    have hlevel := h.takes rfl (List.forall_mem_nil _)
    rwa [hn] at hlevel
  | inside hb hs h ih =>
    apply ih.append sound_empty
    exact (takes_cons (ih.sound sound_empty)).mpr ⟨hs, h.takes rfl (List.forall_mem_cons.mpr ⟨hs, hb.running⟩)⟩

theorem spellsSoFar_of_takes (h : Takes requests {} b) : SpellsSoFar requests b.top b.outer :=
  h.spells sound_empty (.outermost (.pending "" []) rfl)

/-- A builder takes a sequence of requests and finishes exactly when they spell a claim set, which is the one built. -/
theorem finishes_iff_spells {m : ClaimSet} :
    (∃ b, Takes requests {} b ∧ b.finish = .ok m) ↔ Writer.Spells 0 requests m := by
  constructor
  · rintro ⟨b, htakes, hfinish⟩
    obtain ⟨⟨ho, hs⟩, rfl⟩ := finish_eq_ok.mp hfinish
    have hspells := spellsSoFar_of_takes htakes
    rw [ho] at hspells
    cases hspells with
    | outermost h _ => exact h.word hs
  · intro h
    obtain ⟨status, hs, -, htakes⟩ := takes_word h "" rfl (List.forall_mem_nil _)
    exact ⟨_, htakes, finish_eq_ok.mpr ⟨⟨rfl, hs⟩, rfl⟩⟩

end Builder

end ClaimRelay
