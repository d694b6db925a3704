import ClaimRelay.Proofs.Walk.Words

/-!
# The protocol of a walk

The words of the protocol nest as levels do. A level is its claims, each one put before the next is asked
for, up to the first answer that there are no more; then its entries by index, up to the first answer that
there are no more. `run_kept`: whatever the reader and the writer answer, the log of a walk begins a word,
and is one when the walk succeeds.
-/

namespace ClaimRelay

namespace Call

def opens : Call → Bool
  | openSubmodule .. => true
  | _ => false

def closes : Call → Bool
  | closeSubmodule _ (.ok _) => true
  | _ => false

theorem opens_of_request {call answered : Call} (h : call.request = answered.request) :
    call.opens = answered.opens := by
  cases call <;> cases answered <;> first | rfl | cases h

theorem not_closes_of_opens {call : Call} (h : call.opens = true) : call.closes = false := by
  cases call <;> first | rfl | cases h

theorem not_closes_of_fails {call : Call} (h : call.fails = true) : call.closes = false := by
  cases call with
  | closeSubmodule handle answer => cases answer with
    | error e => rfl
    | ok _ => cases h
  | _ => rfl

end Call

namespace Protocol

mutual

/-- The words of a level from its next claim on. Only the outermost level starts its section at once. -/
inductive OfClaims : Bool → List Call → Prop
  | claim {outermost : Bool} {calls : List Call} (c : Claim) (h : OfClaims outermost calls) :
    OfClaims outermost (.nextClaim (.ok (some c)) :: .claim c (.ok ()) :: calls)
  | noMore {outermost : Bool} {calls : List Call} (h : OfEntries 0 outermost calls) :
    OfClaims outermost
      (.nextClaim (.ok none) :: ((if outermost then [.startSection (.ok ())] else []) ++ calls))

/-- The words of a level from its entry at an index on, when its section is open or not. -/
inductive OfEntries : Nat → Bool → List Call → Prop
  | submodule {i : Nat} {sectionOpen : Bool} {inner calls : List Call} (name : String) (handle : Nat)
    (h : OfClaims false inner) (hc : OfEntries (i + 1) true calls) :
    OfEntries i sectionOpen
      (.enter i (.ok (.entered name)) :: (sectionStart sectionOpen ++ .openSubmodule name (.ok handle)
        :: (inner ++ .exit (.ok ()) :: .closeSubmodule handle (.ok ()) :: calls)))
  | token {i : Nat} {sectionOpen : Bool} {calls : List Call} (name : String) (t : NestedToken)
    (hc : OfEntries (i + 1) true calls) :
    OfEntries i sectionOpen
      (.enter i (.ok (.nested name)) :: (sectionStart sectionOpen
        ++ .takesTokens true :: .nestedToken i (.ok t) :: .token t (.ok ()) :: calls))
  | noMore {i : Nat} {sectionOpen : Bool} :
    OfEntries i sectionOpen (.enter i (.ok .noMore) :: sectionEnd sectionOpen)

end

def Word (calls : List Call) : Prop := OfClaims true calls

/-! ## The words that are left -/

/-- The words that the levels further out end with. -/
inductive Outer : List Level → List Call → Prop
  | nil : Outer [] []
  | cons {level : Level} {outer : List Level} {calls rest : List Call}
    (h : OfEntries level.next level.sectionOpen calls) (hr : Outer outer rest) :
    Outer (level :: outer) (calls ++ (closing level.handle ++ rest))

/-- The words that finish a walk from where it stands. -/
inductive Left : Walk → List Call → Prop
  | claims {handle : Option Nat} {outer : List Level} {calls rest : List Call}
    (h : OfClaims handle.isNone calls) (hr : Outer outer rest) :
    Left (.claims handle outer) (calls ++ (closing handle ++ rest))
  | entries {level : Level} {outer : List Level} {calls rest : List Call}
    (h : OfEntries level.next level.sectionOpen calls) (hr : Outer outer rest) :
    Left (.entries level outer) (calls ++ (closing level.handle ++ rest))
  | finished : Left .finished []

theorem outer_possible (outer : List Level) : ∃ rest, Outer outer rest := by
  induction outer with
  | nil => exact ⟨[], .nil⟩
  | cons above outer ih =>
    obtain ⟨rest, h⟩ := ih
    exact ⟨_, .cons .noMore h⟩

theorem outer_of_left {outer : List Level} {rest : List Call} (h : Left (Walk.resume outer) rest) :
    Outer outer rest := by
  cases outer with
  | nil =>
    cases h
    exact .nil
  | cons above outer => cases h with | entries h hr => exact .cons h hr

theorem word_of_left {calls : List Call} (h : Left Walk.beginning calls) : Word calls := by
  cases h with
  | claims h hr =>
    cases hr
    simpa [closing, Word] using h

variable {limit : Nat}

theorem left_discipline : Discipline limit Left where
  possible walk := by
    cases walk with
    | claims handle outer =>
      obtain ⟨rest, h⟩ := outer_possible outer
      exact ⟨_, .claims (.noMore .noMore) h⟩
    | entries level outer =>
      obtain ⟨rest, h⟩ := outer_possible outer
      exact ⟨_, .entries .noMore h⟩
    | finished => exact ⟨[], .finished⟩
  claim c h := by
    cases h with | claims h hr => exact .claims (.claim c h) hr
  noMoreClaims h := by
    cases h with | entries h hr => simpa using Left.claims (.noMore h) hr
  submodule name handle _ h := by
    cases h with | claims h hr => cases hr with | cons hc hr =>
      simpa [closing, Level.afterEntry] using Left.entries (.submodule name handle h hc) hr
  tooDeep level outer name := by
    obtain ⟨rest, hr⟩ := outer_possible outer
    have h : OfEntries level.next level.sectionOpen _ := .submodule name 0 (.noMore .noMore) .noMore
    exact ⟨_, by simpa using Left.entries h hr⟩
  token name t h := by
    cases h with | entries h hr => simpa [Level.afterEntry] using Left.entries (.token name t h) hr
  noMoreEntries h := .entries .noMore (outer_of_left h)

/-! ## Nesting -/

/-- The words that never have more than `limit` submodules open, when so many are open before. -/
def Within (limit opened : Nat) (calls : List Call) : Prop :=
  ∀ seen, seen <+: calls → opened + seen.countP Call.opens ≤ limit + seen.countP Call.closes

/-- Whether the levels that were opened are those inside of others. -/
def Nested : Option Nat → List Level → Prop
  | handle, [] => handle = none
  | handle, above :: outer => handle.isSome ∧ Nested above.handle outer

def WellNested : Walk → Prop
  | .claims handle outer => Nested handle outer
  | .entries level outer => Nested level.handle outer
  | .finished => True

def opened : Walk → Nat
  | .claims _ outer => outer.length
  | .entries _ outer => outer.length
  | .finished => 0

variable {n : Nat}

theorem within_nil (h : n ≤ limit) : Within limit n [] := by
  intro seen hs
  rw [List.prefix_nil.mp hs]
  simpa using h

theorem Within.le {calls : List Call} (h : Within limit n calls) : n ≤ limit := h [] List.nil_prefix

theorem Within.cons {later : Nat} {rest : List Call} (call : Call) (h : Within limit later rest)
    (hn : n ≤ limit) (hl : n + (if call.opens then 1 else 0) = later + if call.closes then 1 else 0) :
    Within limit n (call :: rest) := by
  intro seen hseen
  rcases List.prefix_cons_iff.mp hseen with rfl | ⟨front, rfl, hfront⟩
  · simpa using hn
  · have := h front hfront
    simp only [List.countP_cons]
    omega

theorem Within.quiet {calls rest : List Call} (h : Within limit n rest)
    (hq : ∀ call ∈ calls, call.opens = false ∧ call.closes = false) : Within limit n (calls ++ rest) := by
  induction calls with
  | nil => exact h
  | cons call calls ih =>
    obtain ⟨⟨ho, hc⟩, hcalls⟩ := List.forall_mem_cons.mp hq
    apply Within.cons call (ih hcalls) h.le
    simp [ho, hc]

theorem sectionStart_quiet (sectionOpen : Bool) :
    ∀ call ∈ sectionStart sectionOpen, call.opens = false ∧ call.closes = false := by
  cases sectionOpen <;> simp [sectionStart, Call.opens, Call.closes]

theorem sectionEnd_quiet (sectionOpen : Bool) :
    ∀ call ∈ sectionEnd sectionOpen, call.opens = false ∧ call.closes = false := by
  cases sectionOpen <;> simp [sectionEnd, Call.opens, Call.closes]

theorem within_discipline : Discipline limit fun walk calls =>
    WellNested walk → opened walk ≤ limit → Within limit (opened walk) calls where
  possible _ := ⟨[], fun _ hd => within_nil hd⟩
  claim _ h hn hd := .cons _ (.cons _ (h hn hd) hd rfl) hd rfl
  noMoreClaims h hn hd := by
    refine .cons _ (.quiet (h hn hd) ?_) hd rfl
    split <;> simp [Call.opens, Call.closes]
  submodule _ _ hl h hn hd :=
    .cons _ (.quiet (.cons _ (h ⟨rfl, hn⟩ hl) hd rfl) (sectionStart_quiet _)) hd rfl
  tooDeep _ _ _ := ⟨[], fun _ hd => .cons _ (.quiet (within_nil hd) (sectionStart_quiet _)) hd rfl⟩
  token _ _ h hn hd :=
    .cons _ (.quiet (.cons _ (.cons _ (.cons _ (h hn hd) hd rfl) hd rfl) hd rfl) (sectionStart_quiet _)) hd rfl
  noMoreEntries {level outer _} h hn hd := by
    refine .cons _ (.quiet ?_ (sectionEnd_quiet _)) hd rfl
    cases outer with
    | nil =>
      have hh : level.handle = none := hn
      rw [hh]
      exact h trivial (Nat.zero_le _)
    | cons above outer =>
      obtain ⟨handle, hh⟩ := Option.isSome_iff_exists.mp hn.1
      rw [hh]
      exact .cons _ (.cons _ (h hn.2 (Nat.le_of_succ_le hd)) hd rfl) hd rfl

/-- A failed call does not add to what its log has closed. -/
theorem within_of_begins {log : List Call} (h : Begins (Within limit n) log) : Within limit n log := by
  rcases h with ⟨rest, hw⟩ | ⟨before, call, answered, rest, rfl, hf, hr, hw⟩
  · exact fun seen hs => hw seen (hs.trans (List.prefix_append _ _))
  · intro seen hs
    rcases List.prefix_concat_iff.mp hs with rfl | hs
    · have hopens : call.opens = answered.opens := Call.opens_of_request hr
      have hcloses : call.closes = false := Call.not_closes_of_fails hf
      have hbefore := hw before (List.prefix_append _ _)
      have hanswered := hw (before ++ [answered]) (by simp)
      simp only [List.countP_append, List.countP_singleton, hopens, hcloses] at hanswered ⊢
      cases ho : answered.opens with
      | false => simpa using hbefore
      | true => simpa [ho, Call.not_closes_of_opens ho] using hanswered
    · exact hw seen (hs.trans (List.prefix_append _ _))

/-! ## Whole walks -/

/-- Whether a run has kept to the protocol: all that it logged at any time begins a word and has at most
`limit` submodules open, and a run that succeeded has logged a word. -/
structure Kept {σ : Type} (limit : Nat) (run : Except Error Unit × σ × List Call) : Prop where
  begins (seen : List Call) (h : seen <+: run.2.2) : Begins Word seen
  nesting (seen : List Call) (h : seen <+: run.2.2) : seen.countP Call.opens ≤ limit + seen.countP Call.closes
  word (h : run.1 = .ok ()) : Word run.2.2

theorem proceed_kept {ς : Type} (limit : Nat) (r : Reader ς) (w : Writer ς) (s : ς) (items : Nat) :
    Kept limit (Walk.proceed limit r.logged w.logged items Walk.beginning (s, [])) := by
  have hleft : Conforms (Walk.proceed limit r.logged w.logged items Walk.beginning) (Left Walk.beginning) _ :=
    proceed_conforms left_discipline items _
  have hwithin : Conforms (Walk.proceed limit r.logged w.logged items Walk.beginning) _ _ :=
    proceed_conforms within_discipline items _
  obtain ⟨hbegins, hword⟩ := hleft.log (fun _ => .finished) s
  obtain ⟨hnesting, -⟩ := hwithin.log (fun _ _ hd => within_nil hd) s
  refine ⟨fun seen hs => ?_, fun seen hs => ?_, fun hok => word_of_left (hword () hok)⟩
  · exact (hbegins.mono fun _ => word_of_left).front hs
  · have h0 := within_of_begins (hnesting.mono fun _ h => h rfl (Nat.zero_le _))
    simpa [opened, Walk.beginning] using h0 seen hs

/-- **The protocol of a walk.** It is kept with every reader and every writer, after any number of items, and
hence also by a walk that would never end. -/
theorem run_kept {ς : Type} (limit : Nat) (r : Reader ς) (w : Writer ς) (s : ς) :
    Kept limit (Walk.run limit r.logged w.logged (s, [])) ∧
      ∀ items, Kept limit (Walk.proceed limit r.logged w.logged items Walk.beginning (s, [])) :=
  ⟨proceed_kept limit r w s (r.extent s), proceed_kept limit r w s⟩

end Protocol

end ClaimRelay
