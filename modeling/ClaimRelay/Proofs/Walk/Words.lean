import ClaimRelay.Calls
import ClaimRelay.Walk

/-!
# Logs that begin words

A walk logs calls, and what it may still log depends on where it stands. A `Discipline` gives each place a set
of words, closed under what one advance logs; `proceed_conforms`: the log of a walk then begins a word of
the place it started from, whatever the reader and the writer answer.
-/

namespace ClaimRelay

/-- A call without its answer. -/
inductive Request
  | nextClaim
  | enter (index : Nat)
  | exit
  | nestedToken (index : Nat)
  | rewind
  | claim (c : Claim)
  | startSection
  | endSection
  | openSubmodule (name : String)
  | closeSubmodule (handle : Nat)
  | takesTokens
  | token (t : NestedToken)
  deriving DecidableEq

namespace Call

def request : Call → Request
  | nextClaim _ => .nextClaim
  | enter index _ => .enter index
  | exit _ => .exit
  | nestedToken index _ => .nestedToken index
  | rewind => .rewind
  | claim c _ => .claim c
  | startSection _ => .startSection
  | endSection _ => .endSection
  | openSubmodule name _ => .openSubmodule name
  | closeSubmodule handle _ => .closeSubmodule handle
  | takesTokens _ => .takesTokens
  | token t _ => .token t

def fails : Call → Bool
  | nextClaim (.error _) | enter _ (.error _) | exit (.error _) | nestedToken _ (.error _) | claim _ (.error _)
  | startSection (.error _) | endSection (.error _) | openSubmodule _ (.error _) | closeSubmodule _ (.error _)
  | takesTokens false | token _ (.error _) => true
  | _ => false

end Call

namespace Protocol

/-- A log that can go on to a word, or could if its last call had not failed. -/
def Begins (words : List Call → Prop) (log : List Call) : Prop :=
  (∃ rest, words (log ++ rest)) ∨
    ∃ before call answered rest, log = before ++ [call] ∧ call.fails = true ∧
      call.request = answered.request ∧ words (before ++ answered :: rest)

theorem Begins.front {words : List Call → Prop} {log seen : List Call} (h : Begins words log)
    (hs : seen <+: log) : Begins words seen := by
  obtain ⟨more, rfl⟩ := hs
  rcases h with ⟨rest, hw⟩ | ⟨before, call, answered, rest, hl, hf, hr, hw⟩
  · exact Or.inl ⟨more ++ rest, by rwa [List.append_assoc] at hw⟩
  · rcases List.eq_nil_or_concat more with hm | ⟨more, last, rfl⟩
    · subst hm
      exact Or.inr ⟨before, call, answered, rest, by rw [← hl, List.append_nil], hf, hr, hw⟩
    · rw [List.concat_eq_append, ← List.append_assoc] at hl
      obtain ⟨rfl, -⟩ := List.append_inj' hl rfl
      exact Or.inl ⟨more ++ answered :: rest, by rwa [List.append_assoc] at hw⟩

theorem Begins.mono {words later : List Call → Prop} {log : List Call} (h : Begins words log)
    (hl : ∀ calls, words calls → later calls) : Begins later log := by
  rcases h with ⟨rest, hw⟩ | ⟨before, call, answered, rest, hlog, hf, hr, hw⟩
  · exact Or.inl ⟨rest, hl _ hw⟩
  · exact Or.inr ⟨before, call, answered, rest, hlog, hf, hr, hl _ hw⟩

theorem Begins.append {words later : List Call → Prop} {log : List Call} (calls : List Call)
    (hl : ∀ rest, later rest → words (calls ++ rest)) (h : Begins later log) : Begins words (calls ++ log) := by
  rcases h with ⟨rest, hw⟩ | ⟨before, call, answered, rest, rfl, hf, hr, hw⟩
  · refine Or.inl ⟨rest, ?_⟩
    rw [List.append_assoc]
    exact hl _ hw
  · refine Or.inr ⟨calls ++ before, call, answered, rest, (List.append_assoc ..).symm, hf, hr, ?_⟩
    rw [List.append_assoc]
    exact hl _ hw

/-! ## Steps that keep to words -/

section
variable {ς α β : Type}

/-- What the step logs leads from the words `W` to the words `K` of its answer; if it fails, its log begins a
word of `W`. -/
def Conforms (x : Step (ς × List Call) α) (W : List Call → Prop) (K : α → List Call → Prop) : Prop :=
  ∀ s log, ∃ calls, (x (s, log)).2.2 = log ++ calls ∧
    match (x (s, log)).1 with
    | .ok a => ∀ rest, K a rest → W (calls ++ rest)
    | .error _ => Begins W calls

theorem Conforms.answer {W : List Call → Prop} {K : α → List Call → Prop} {a : α}
    (h : ∀ rest, K a rest → W rest) : Conforms (pure a : Step (ς × List Call) α) W K := by
  intro s log
  exact ⟨[], (List.append_nil log).symm, h⟩

theorem Conforms.refuse {W : List Call → Prop} {K : α → List Call → Prop} (e : Error) (h : ∃ rest, W rest) :
    Conforms (throw e : Step (ς × List Call) α) W K := by
  intro s log
  exact ⟨[], (List.append_nil log).symm, Or.inl h⟩

theorem Conforms.mono {x : Step (ς × List Call) α} {W : List Call → Prop} {J K : α → List Call → Prop}
    (hx : Conforms x W J) (h : ∀ a rest, K a rest → J a rest) : Conforms x W K := by
  intro s log
  obtain ⟨calls, hlog, hcalls⟩ := hx s log
  refine ⟨calls, hlog, ?_⟩
  split <;> rename_i hr <;> rw [hr] at hcalls
  · exact fun rest hk => hcalls rest (h _ rest hk)
  · exact hcalls

theorem Conforms.bind {x : Step (ς × List Call) α} {f : α → Step (ς × List Call) β} {W : List Call → Prop}
    {J : α → List Call → Prop} {K : β → List Call → Prop} (hx : Conforms x W J)
    (hf : ∀ a, Conforms (f a) (J a) K) : Conforms (x >>= f) W K := by
  intro s log
  obtain ⟨calls, hlog, hcalls⟩ := hx s log
  rw [Step.bind_apply]
  rcases hxs : x (s, log) with ⟨_ | a, t, log'⟩ <;> rw [hxs] at hlog hcalls
  · exact ⟨calls, hlog, hcalls⟩
  · subst hlog
    obtain ⟨more, hlog, hmore⟩ := hf a t (log ++ calls)
    rw [List.append_assoc] at hlog
    refine ⟨calls ++ more, hlog, ?_⟩
    simp only
    split <;> rename_i hr <;> rw [hr] at hmore
    · intro rest hk
      rw [List.append_assoc]
      exact hcalls _ (hmore rest hk)
    · exact hmore.append calls hcalls

/-- A call leads to the words that go on behind its answer. -/
theorem Conforms.logged {call : Except Error α → Call} {W : List Call → Prop} (x : Step ς α)
    (hf : ∀ e, (call (.error e)).fails = true) (hr : ∀ a b, (call a).request = (call b).request)
    (h : ∃ a rest, W (call (.ok a) :: rest)) :
    Conforms (x.logged call) W fun a rest => W (call (.ok a) :: rest) := by
  intro s log
  refine ⟨[call (x s).1], rfl, ?_⟩
  simp only [Step.logged]
  split
  · rename_i a ha
    exact fun rest hw => by rwa [ha]
  · rename_i e he
    obtain ⟨a, rest, hw⟩ := h
    exact Or.inr ⟨[], _, call (.ok a), rest, rfl, by rw [he]; exact hf e, hr _ _, hw⟩

theorem Conforms.log {x : Step (ς × List Call) α} {W : List Call → Prop} {K : α → List Call → Prop}
    (hx : Conforms x W K) (hK : ∀ a, K a []) (s : ς) :
    Begins W (x (s, [])).2.2 ∧ ∀ a, (x (s, [])).1 = .ok a → W (x (s, [])).2.2 := by
  obtain ⟨calls, hlog, hcalls⟩ := hx s []
  rw [hlog, List.nil_append]
  split at hcalls
  · rename_i a ha
    have hw : W (calls ++ []) := hcalls [] (hK a)
    exact ⟨Or.inl ⟨[], hw⟩, fun _ _ => by rwa [List.append_nil] at hw⟩
  · rename_i e he
    exact ⟨hcalls, fun a ha => by rw [he] at ha; cases ha⟩

end

/-! ## What one advance logs -/

/-- The start of the section that an entry causes, when none is open. -/
def sectionStart (sectionOpen : Bool) : List Call := if sectionOpen then [] else [.startSection (.ok ())]

def sectionEnd (sectionOpen : Bool) : List Call := if sectionOpen then [.endSection (.ok ())] else []

def closing : Option Nat → List Call
  | none => []
  | some handle => [.exit (.ok ()), .closeSubmodule handle (.ok ())]

/-- Words for every place a walk may stand at, which the calls of each advance lead through. -/
structure Discipline (limit : Nat) (F : Walk → List Call → Prop) : Prop where
  possible (walk : Walk) : ∃ rest, F walk rest
  claim {handle : Option Nat} {outer : List Level} {rest : List Call} (c : Claim)
    (h : F (.claims handle outer) rest) :
    F (.claims handle outer) (.nextClaim (.ok (some c)) :: .claim c (.ok ()) :: rest)
  noMoreClaims {handle : Option Nat} {outer : List Level} {rest : List Call}
    (h : F (.entries ⟨0, handle.isNone, handle⟩ outer) rest) :
    F (.claims handle outer)
      (.nextClaim (.ok none) :: ((if handle.isNone then [.startSection (.ok ())] else []) ++ rest))
  submodule {level : Level} {outer : List Level} {rest : List Call} (name : String) (handle : Nat)
    (hl : outer.length < limit) (h : F (.claims (some handle) (level.afterEntry :: outer)) rest) :
    F (.entries level outer) (.enter level.next (.ok (.entered name))
      :: (sectionStart level.sectionOpen ++ .openSubmodule name (.ok handle) :: rest))
  tooDeep (level : Level) (outer : List Level) (name : String) : ∃ rest, F (.entries level outer)
    (.enter level.next (.ok (.entered name)) :: (sectionStart level.sectionOpen ++ rest))
  token {level : Level} {outer : List Level} {rest : List Call} (name : String) (t : NestedToken)
    (h : F (.entries level.afterEntry outer) rest) :
    F (.entries level outer) (.enter level.next (.ok (.nested name)) :: (sectionStart level.sectionOpen
      ++ .takesTokens true :: .nestedToken level.next (.ok t) :: .token t (.ok ()) :: rest))
  noMoreEntries {level : Level} {outer : List Level} {rest : List Call} (h : F (Walk.resume outer) rest) :
    F (.entries level outer)
      (.enter level.next (.ok .noMore) :: (sectionEnd level.sectionOpen ++ (closing level.handle ++ rest)))

section
variable {ς : Type} {limit : Nat} {r : Reader ς} {w : Writer ς}

theorem Conforms.startSection {W : List Call → Prop} (h : ∃ rest, W (.startSection (.ok ()) :: rest)) :
    Conforms w.logged.startSection W fun _ rest => W (.startSection (.ok ()) :: rest) :=
  .logged _ (fun _ => rfl) (fun _ _ => rfl) (let ⟨rest, hw⟩ := h; ⟨(), rest, hw⟩)

theorem Conforms.openSection {W : List Call → Prop} (level : Level)
    (h : ∃ rest, W (sectionStart level.sectionOpen ++ rest)) :
    Conforms (Walk.openSection w.logged level) W fun _ rest => W (sectionStart level.sectionOpen ++ rest) := by
  unfold Walk.openSection
  cases hl : level.sectionOpen with
  | true => exact .answer fun _ hw => hw
  | false => exact .startSection (by simpa [hl, sectionStart] using h)

theorem Conforms.carryToken {W K : List Call → Prop} {i : Nat} (hp : ∃ rest, K rest)
    (h : ∀ t rest, K rest → W (.takesTokens true :: .nestedToken i (.ok t) :: .token t (.ok ()) :: rest)) :
    Conforms (Walk.carryToken r.logged w.logged i) W fun _ => K := by
  intro s log
  obtain ⟨rest, hrest⟩ := hp
  -- asking a writer whether it takes tokens never fails, so `logged` does not apply; a refusal still ends the log
  have hasked : ∀ taken t, w.takesTokens s = (taken, t) →
      (modifyGet w.logged.takesTokens : Step (ς × List Call) Bool) (s, log) =
        (.ok taken, t, log ++ [.takesTokens taken]) := by
    intro taken t ht
    simp only [modifyGet, MonadStateOf.modifyGet, Writer.logged, ht]
  unfold Walk.carryToken
  rcases hws : w.takesTokens s with ⟨_ | _, t⟩
  · rw [Step.bind_of_ok (hasked _ _ hws)]
    exact ⟨[.takesTokens false], rfl,
      Or.inr ⟨[], _, .takesTokens true, _, rfl, rfl, rfl, h ⟨.json, "", []⟩ _ hrest⟩⟩
  · have hgo : Conforms (do w.logged.token (← r.logged.nestedToken i))
        (fun rest => W (.takesTokens true :: rest)) fun _ => K := by
      refine .bind (.logged _ (fun _ => rfl) (fun _ _ => rfl) ⟨⟨.json, "", []⟩, _, h _ _ hrest⟩) fun token => ?_
      exact .mono (.logged _ (fun _ => rfl) (fun _ _ => rfl) ⟨(), _, h token _ hrest⟩) fun _ => h token
    obtain ⟨calls, hlog, hcalls⟩ := hgo t (log ++ [.takesTokens true])
    rw [Step.bind_of_ok (hasked _ _ hws)]
    refine ⟨.takesTokens true :: calls, by rw [List.append_assoc] at hlog; exact hlog, ?_⟩
    split <;> rename_i hr <;> erw [hr] at hcalls
    · exact hcalls
    · exact hcalls.append [.takesTokens true] fun _ hw => hw

theorem Conforms.goUp {W K : List Call → Prop} (handle : Option Nat) (hp : ∃ rest, K rest)
    (h : ∀ rest, K rest → W (closing handle ++ rest)) :
    Conforms (Walk.goUp r.logged w.logged handle) W fun _ => K := by
  obtain ⟨last, hlast⟩ := hp
  cases handle with
  | none => exact .answer h
  | some handle =>
    refine .bind (.logged _ (fun _ => rfl) (fun _ _ => rfl) ⟨(), _, h _ hlast⟩) fun _ => ?_
    exact .mono (.logged _ (fun _ => rfl) (fun _ _ => rfl) ⟨(), _, h _ hlast⟩) fun _ => h

theorem Conforms.leave {W K : List Call → Prop} (level : Level) (hp : ∃ rest, K rest)
    (h : ∀ rest, K rest → W (sectionEnd level.sectionOpen ++ (closing level.handle ++ rest))) :
    Conforms (Walk.leave r.logged w.logged level) W fun _ => K := by
  obtain ⟨last, hlast⟩ := hp
  unfold Walk.leave
  cases hs : level.sectionOpen with
  | true =>
    rw [hs] at h
    exact .bind (.logged _ (fun _ => rfl) (fun _ _ => rfl) ⟨(), _, h _ hlast⟩) fun _ => .goUp _ ⟨_, hlast⟩ h
  | false =>
    rw [hs] at h
    exact .goUp _ ⟨_, hlast⟩ h

/-- Each call is followed with the words that its answer leaves; what `possible` promises keeps a call that
fails inside of them. -/
theorem advance_conforms {F : Walk → List Call → Prop} (hF : Discipline limit F) (walk : Walk) :
    Conforms (Walk.advance limit r.logged w.logged walk) (F walk) F := by
  cases walk with
  | finished => exact .answer fun _ h => h
  | claims handle outer =>
    -- should asking for the claim fail, the log could still go on with no claim at all
    obtain ⟨last, hlast⟩ := hF.possible (.entries ⟨0, handle.isNone, handle⟩ outer)
    refine .bind (.logged _ (fun _ => rfl) (fun _ _ => rfl) ⟨none, _, hF.noMoreClaims hlast⟩) fun answer => ?_
    cases answer with
    | some c =>
      obtain ⟨rest, hrest⟩ := hF.possible (.claims handle outer)
      refine .bind (.logged _ (fun _ => rfl) (fun _ _ => rfl) ⟨(), _, hF.claim c hrest⟩) fun _ => ?_
      exact .answer fun rest h => hF.claim c h
    | none =>
      cases handle with
      | none =>
        refine .bind (.startSection ⟨_, hF.noMoreClaims hlast⟩) fun _ => ?_
        exact .answer fun rest h => hF.noMoreClaims h
      | some handle => exact .answer fun rest h => hF.noMoreClaims h
  | entries level outer =>
    obtain ⟨last, hlast⟩ := hF.possible (Walk.resume outer)
    refine .bind (.logged _ (fun _ => rfl) (fun _ _ => rfl) ⟨.noMore, _, hF.noMoreEntries hlast⟩) fun slot => ?_
    cases slot with
    | noMore =>
      refine .bind (.leave level ⟨_, hlast⟩ fun rest h => hF.noMoreEntries h) fun _ => ?_
      exact .answer fun rest h => h
    | entered name =>
      refine .bind (.openSection level (hF.tooDeep level outer name)) fun _ => ?_
      by_cases hl : limit ≤ outer.length
      · simp only [hl, ite_true]
        exact .refuse (.tooDeep limit) (hF.tooDeep level outer name)
      · simp only [hl, ite_false]
        obtain ⟨rest, hrest⟩ := hF.possible (.claims (some 0) (level.afterEntry :: outer))
        refine .bind (.logged _ (fun _ => rfl) (fun _ _ => rfl)
          ⟨0, _, hF.submodule name 0 (Nat.lt_of_not_le hl) hrest⟩) fun handle => ?_
        exact .answer fun rest h => hF.submodule name handle (Nat.lt_of_not_le hl) h
    | nested name =>
      obtain ⟨rest, hrest⟩ := hF.possible (.entries level.afterEntry outer)
      refine .bind (.openSection level ⟨_, hF.token name ⟨.json, "", []⟩ hrest⟩) fun _ => ?_
      refine .bind (.carryToken ⟨_, hrest⟩ fun t rest h => hF.token name t h) fun _ => ?_
      exact .answer fun rest h => h

theorem proceed_conforms {F : Walk → List Call → Prop} (hF : Discipline limit F) (n : Nat) (walk : Walk) :
    Conforms (Walk.proceed limit r.logged w.logged n walk) (F walk) fun _ rest => F .finished rest := by
  induction n generalizing walk with
  | zero =>
    cases walk with
    | finished => exact .answer fun _ h => h
    | claims handle outer => exact .refuse _ (hF.possible _)
    | entries level outer => exact .refuse _ (hF.possible _)
  | succ n ih =>
    cases walk with
    | finished => exact .answer fun _ h => h
    | claims handle outer => exact .bind (advance_conforms hF _) ih
    | entries level outer => exact .bind (advance_conforms hF _) ih

end

end Protocol

end ClaimRelay
