import ClaimRelay.Proofs.Walk.Courses

/-!
# Walks that stop at an entry

A writer that never fails is taken along the course of the claim set. `Walk.run_halted`: a walk without an offender
goes the whole course, and else the first offender ends it.
-/

namespace ClaimRelay

variable {σ τ α β : Type}

/-- Whether a writer never fails; it takes nested tokens when `sink`. -/
structure Writer.Tireless (w : Writer τ) (sink : Bool) : Prop where
  accepts : Writer.Accepts { w with takesTokens := fun t => (true, t) }
  takesTokens (t : τ) : ∃ t', w.takesTokens t = (sink, t')

namespace Course

/-! ## Steps along a course -/

/-- Whether a step goes a course of `M`, from where the reader is in `s`: all of it, to go on as `z` with the reader
in `s'`, or up to its first offender, where it ends. -/
def Goes (limit : Nat) (sink : Bool) (M : List Moment → Prop) (x : Step ((σ × τ) × List Call) β) (s : σ)
    (z : Step ((σ × τ) × List Call) β) (s' : σ) : Prop :=
  ∀ t log, ∃ course, M course ∧
    ((∀ v ∈ visits course, v.offends limit sink = false) ∧
        (∃ t', x ((s, t), log) = z ((s', t'), log ++ calls course)) ∨
      ∃ v seen s'' t', Cut limit sink course (some v) seen ∧
        x ((s, t), log) = (.error (v.refusal limit), ((s'', t'), log ++ seen)))

namespace Goes

variable {limit : Nat} {sink : Bool} {M N : List Moment → Prop} {x y z : Step ((σ × τ) × List Call) β}
  {s s₁ s' : σ}

theorem done (h : x = z) : Goes limit sink (· = []) x s z s := by
  intro t log
  refine ⟨[], rfl, Or.inl ⟨fun v hv => by simp at hv, t, ?_⟩⟩
  rw [h, calls_nil, List.append_nil]

theorem mono (hx : Goes limit sink M x s z s') (h : ∀ course, M course → N course) :
    Goes limit sink N x s z s' := by
  intro t log
  obtain ⟨course, hM, hcourse⟩ := hx t log
  exact ⟨course, h course hM, hcourse⟩

/-- A step that makes a few calls first, which depend on what is answered. -/
theorem behind (front : α → List Moment) {M : α → List Moment → Prop} {y : α → Step ((σ × τ) × List Call) β}
    (hf : ∀ a, ∀ v ∈ visits (front a), v.offends limit sink = false)
    (hx : ∀ t log, ∃ a t', x ((s, t), log) = y a ((s₁, t'), log ++ calls (front a)))
    (hy : ∀ a, Goes limit sink (M a) (y a) s₁ z s') :
    Goes limit sink (fun course => ∃ a rest, course = front a ++ rest ∧ M a rest) x s z s' := by
  intro t log
  obtain ⟨a, t₁, hx⟩ := hx t log
  obtain ⟨rest, hM, hrest⟩ := hy a t₁ (log ++ calls (front a))
  refine ⟨front a ++ rest, ⟨a, rest, rfl, hM⟩, ?_⟩
  rcases hrest with ⟨hclear, t', hgoes⟩ | ⟨v, seen, s'', t', hcut, hends⟩
  · refine Or.inl ⟨fun v hv => ?_, t', ?_⟩
    · rw [visits_append, List.mem_append] at hv
      exact hv.elim (hf a v) (hclear v)
    · rw [hx, hgoes, calls_append, List.append_assoc]
  · refine Or.inr ⟨v, calls (front a) ++ seen, s'', t', hcut.behind (hf a), ?_⟩
    rw [hx, hends, List.append_assoc]

theorem append (hx : Goes limit sink M x s y s₁) (hy : Goes limit sink N y s₁ z s') :
    Goes limit sink (fun course => ∃ front rest, course = front ++ rest ∧ M front ∧ N rest) x s z s' := by
  intro t log
  obtain ⟨front, hM, hfront⟩ := hx t log
  rcases hfront with ⟨hclear, t₁, hgoes⟩ | ⟨v, seen, s'', t', hcut, hends⟩
  · obtain ⟨rest, hN, hrest⟩ := hy t₁ (log ++ calls front)
    refine ⟨front ++ rest, ⟨front, rest, rfl, hM, hN⟩, ?_⟩
    rcases hrest with ⟨hclear', t', hgoes'⟩ | ⟨v, seen, s'', t', hcut, hends⟩
    · refine Or.inl ⟨fun v hv => ?_, t', ?_⟩
      · rw [visits_append, List.mem_append] at hv
        exact hv.elim (hclear v) (hclear' v)
      · rw [hgoes, hgoes', calls_append, List.append_assoc]
    · refine Or.inr ⟨v, calls front ++ seen, s'', t', hcut.behind hclear, ?_⟩
      rw [hgoes, hends, List.append_assoc]
  · obtain ⟨rest, hN, -⟩ := hy t log
    exact ⟨front ++ rest, ⟨front, rest, rfl, hM, hN⟩, Or.inr ⟨v, seen, s'', t', hcut.before rest, hends⟩⟩

theorem read {call : Step σ α} {log : Except Error α → Call} {a : α} {k : α → Step ((σ × τ) × List Call) β}
    (h : call s = (.ok a, s₁)) (hk : Goes limit sink M (k a) s₁ z s') :
    Goes limit sink (fun course => ∃ rest, course = .call (log (.ok a)) :: rest ∧ M rest)
      (call.onFst.logged log >>= k) s z s' := by
  refine (behind (fun _ : Unit => [.call (log (.ok a))]) (fun _ v hv => by simp at hv) (fun t before => ?_)
    fun _ => hk).mono fun course => ?_
  · have hcall : call.onFst.logged log ((s, t), before) = (.ok a, ((s₁, t), before ++ [log (.ok a)])) := by
      simp only [Step.logged, Step.onFst, h]
    exact ⟨(), t, Step.bind_of_ok hcall⟩
  · rintro ⟨_, rest, rfl, hM⟩
    exact ⟨rest, rfl, hM⟩

theorem write {call : Step τ α} {log : Except Error α → Call} {M : α → List Moment → Prop}
    {k : α → Step ((σ × τ) × List Call) β} (h : ∀ t, ∃ a t', call t = (.ok a, t'))
    (hk : ∀ a, Goes limit sink (M a) (k a) s z s') :
    Goes limit sink (fun course => ∃ a rest, course = .call (log (.ok a)) :: rest ∧ M a rest)
      (call.onSnd.logged log >>= k) s z s' := by
  refine behind (fun a => [.call (log (.ok a))]) (fun _ v hv => by simp at hv) (fun t before => ?_) hk
  obtain ⟨a, t', ht⟩ := h t
  have hcall : call.onSnd.logged log ((s, t), before) = (.ok a, ((s, t'), before ++ [log (.ok a)])) := by
    simp only [Step.logged, Step.onSnd, ht]
  exact ⟨a, t', Step.bind_of_ok hcall⟩

section
variable {r : Reader σ} {w : Writer τ} (level : Level) (v : Visit) {k : Slot → Step ((σ × τ) × List Call) β}
  {f : Step ((σ × τ) × List Call) β}

theorem visited (hw : w.Tireless sink) (h : r.enter level.next s = (.ok v.entry.slot, s₁))
    (hk : k v.entry.slot = (do Walk.openSection w.onSnd.logged level; f)) (t : τ) (log : List Call) :
    ∃ t', (r.onFst.logged.enter level.next >>= k) ((s, t), log) =
      f ((s₁, t'), log ++ calls [.visit level.next level.sectionOpen v]) := by
  have hentered : r.onFst.logged.enter level.next ((s, t), log) =
      (.ok v.entry.slot, ((s₁, t), log ++ [.enter level.next (.ok v.entry.slot)])) := by
    simp only [Reader.logged, Reader.onFst, Step.logged, Step.onFst, h]
  rw [Step.bind_of_ok hentered, hk, Walk.openSection]
  cases hl : level.sectionOpen with
  | true => exact ⟨t, by simp⟩
  | false =>
    obtain ⟨t', ht⟩ : ∃ t', w.startSection t = (.ok (), t') := hw.accepts.startSection t
    have hstarted (before : List Call) : w.onSnd.logged.startSection ((s₁, t), before) =
        (.ok (), ((s₁, t'), before ++ [.startSection (.ok ())])) := by
      simp only [Writer.logged, Writer.onSnd, Step.logged, Step.onSnd, ht]
    refine ⟨t', ?_⟩
    rw [if_neg Bool.false_ne_true, Step.bind_of_ok (hstarted _)]
    simp

theorem pass (hw : w.Tireless sink) (h : r.enter level.next s = (.ok v.entry.slot, s₁))
    (hk : k v.entry.slot = (do Walk.openSection w.onSnd.logged level; f)) (ho : v.offends limit sink = false)
    (hf : Goes limit sink M f s₁ z s') :
    Goes limit sink (fun course => ∃ rest, course = .visit level.next level.sectionOpen v :: rest ∧ M rest)
      (r.onFst.logged.enter level.next >>= k) s z s' := by
  refine (behind (fun _ : Unit => [.visit level.next level.sectionOpen v]) (fun _ u hu => ?_) (fun t log => ?_)
    fun _ => hf).mono fun course => ?_
  · simp only [visits_visit, visits_nil, List.mem_singleton] at hu
    rwa [hu]
  · exact ⟨(), visited level v hw h hk t log⟩
  · rintro ⟨_, rest, rfl, hM⟩
    exact ⟨rest, rfl, hM⟩

theorem stop (hw : w.Tireless sink) (h : r.enter level.next s = (.ok v.entry.slot, s₁))
    (hk : k v.entry.slot = (do Walk.openSection w.onSnd.logged level; f)) (ho : v.offends limit sink = true)
    (hf : ∀ t log, ∃ t', f ((s₁, t), log) = (.error (v.refusal limit), ((s₁, t'), log ++ v.asked)))
    {call : Call} (ht : v.TakenBy call) {after : List Moment}
    (hM : M (.visit level.next level.sectionOpen v :: .call call :: after)) :
    Goes limit sink M (r.onFst.logged.enter level.next >>= k) s z s' := by
  intro t log
  obtain ⟨t₁, hvisited⟩ := visited level v hw h hk t log
  obtain ⟨t', hstopped⟩ := hf t₁ (log ++ calls [.visit level.next level.sectionOpen v])
  have hcut : Cut limit sink ([] ++ .visit level.next level.sectionOpen v :: .call call :: after) (some v) _ :=
    .offender (fun u hu => by simp at hu) ho ht
  refine ⟨_, hM, Or.inr ⟨v, _, s₁, t', hcut, ?_⟩⟩
  rw [hvisited, hstopped, List.nil_append, List.append_assoc]

end

end Goes

/-! ## Walks along a course -/

section
variable {limit : Nat} {sink : Bool} {w : Writer τ} (hw : w.Tireless sink)
include hw

theorem goes_claims (handle : Option Nat) (outer : List Level) (n : Nat) {r : Reader σ} {cs : List Claim} {s s' : σ}
    (hc : r.ServesClaims cs s s') :
    Goes limit sink (· = claims cs)
      (Walk.proceed limit r.onFst.logged w.onSnd.logged (n + cs.length + 1) (.claims handle outer)) s
      (do
        if handle.isNone then w.onSnd.logged.startSection
        Walk.proceed limit r.onFst.logged w.onSnd.logged n (.entries ⟨0, handle.isNone, handle⟩ outer)) s' := by
  induction hc with
  | nil h =>
    rw [Walk.proceed_claims]
    refine (Goes.read h (.done rfl)).mono ?_
    rintro _ ⟨_, rfl, rfl⟩
    rfl
  | @cons c rest _ _ _ h _ ih =>
    rw [Walk.proceed_claims]
    refine (Goes.read h (.write (fun t => ⟨(), hw.accepts.claim c t⟩) fun _ => ih)).mono ?_
    rintro _ ⟨_, rfl, _, _, rfl, rfl⟩
    rfl

theorem goes_up (handle : Nat) {r : Reader σ} {s s' : σ} (h : r.exit s = (.ok (), s'))
    (z : Step ((σ × τ) × List Call) β) :
    Goes limit sink (· = [.call (.exit (.ok ())), .call (.closeSubmodule handle (.ok ()))])
      (Walk.goUp r.onFst.logged w.onSnd.logged (some handle) >>= fun _ => z) s z s' := by
  have hclosed : Goes limit sink _ (do w.onSnd.logged.closeSubmodule handle; z) s' z s' :=
    .write (fun t => ⟨(), hw.accepts.closeSubmodule handle t⟩) fun _ => .done rfl
  rw [Walk.goUp, bind_assoc]
  refine (Goes.read h hclosed).mono ?_
  rintro _ ⟨_, rfl, _, _, rfl, rfl⟩
  rfl

theorem goes_leave {r : Reader σ} (level : Level) (s : σ) (z : Step ((σ × τ) × List Call) β) :
    Goes limit sink (· = (Protocol.sectionEnd level.sectionOpen).map .call)
      (Walk.leave r.onFst.logged w.onSnd.logged level >>= fun _ => z) s
      (Walk.goUp r.onFst.logged w.onSnd.logged level.handle >>= fun _ => z) s := by
  rw [Walk.leave]
  cases level.sectionOpen with
  | false => exact .done rfl
  | true =>
    have hended (k : Step ((σ × τ) × List Call) β) : Goes limit sink _ (do w.onSnd.logged.endSection; k) s k s :=
      .write (fun t => ⟨(), hw.accepts.endSection t⟩) fun _ => .done rfl
    rw [if_pos rfl, bind_assoc]
    refine (hended _).mono ?_
    rintro _ ⟨_, _, rfl, rfl⟩
    rfl

theorem goes_carryToken {M : List Moment → Prop} {r : Reader σ} {i : Nat} {t : NestedToken} {s s₁ s' : σ}
    {k : Unit → Step ((σ × τ) × List Call) β} {z : Step ((σ × τ) × List Call) β} (hs : sink = true)
    (h : r.nestedToken i s = (.ok t, s₁)) (hk : Goes limit sink M (k ()) s₁ z s') :
    Goes limit sink
      (fun course => ∃ rest, course = .call (.takesTokens true) :: .call (.nestedToken i (.ok t))
        :: .call (.token t (.ok ())) :: rest ∧ M rest)
      (Walk.carryToken r.onFst.logged w.onSnd.logged i >>= k) s z s' := by
  subst hs
  have hput : Goes limit true _ (do w.onSnd.logged.token t; k ()) s₁ z s' :=
    .write (fun u => ⟨(), hw.accepts.token t u⟩) fun _ => hk
  have hread : Goes limit true _ (do
      let token ← r.onFst.logged.nestedToken i
      w.onSnd.logged.token token
      k ()) s z s' := .read h hput
  refine .mono (.behind (fun _ : Unit => [.call (.takesTokens true)]) (fun _ v hv => by simp at hv) (fun u log => ?_)
    fun _ => hread) fun course => ?_
  · obtain ⟨u', hu⟩ := hw.takesTokens u
    refine ⟨(), u', ?_⟩
    simp only [Walk.carryToken, bind_assoc]
    have hasked : (modifyGet w.onSnd.logged.takesTokens : Step ((σ × τ) × List Call) Bool) ((s, u), log) =
        (.ok true, ((s, u'), log ++ [.takesTokens true])) := by
      simp only [modifyGet, MonadStateOf.modifyGet, Writer.logged, Writer.onSnd, hu]
    rw [Step.bind_of_ok hasked, if_pos rfl, bind_assoc]
    rfl
  · rintro ⟨_, _, rfl, _, rfl, _, rest, rfl, hM⟩
    exact ⟨rest, rfl, hM⟩

theorem carryToken_refused {r : Reader σ} (i : Nat) (k : Unit → Step ((σ × τ) × List Call) β) (hs : sink = false)
    (s : σ) (t : τ) (log : List Call) :
    ∃ t', (Walk.carryToken r.onFst.logged w.onSnd.logged i >>= k) ((s, t), log) =
      (.error (.unsupported .nestedToken), ((s, t'), log ++ [.takesTokens false])) := by
  subst hs
  obtain ⟨t', ht⟩ := hw.takesTokens t
  have hasked : (modifyGet w.onSnd.logged.takesTokens : Step ((σ × τ) × List Call) Bool) ((s, t), log) =
      (.ok false, ((s, t'), log ++ [.takesTokens false])) := by
    simp only [modifyGet, MonadStateOf.modifyGet, Writer.logged, Writer.onSnd, ht]
  refine ⟨t', ?_⟩
  rw [Walk.carryToken, bind_assoc, Step.bind_of_ok hasked]
  rfl

mutual

theorem goes_entry (handle : Option Nat) (n : Nat) : ∀ (e : Entry) {outer : List Level} {i : Nat} {sectionOpen : Bool}
    {c : Cursor} {here : ClaimSet}, outer.length ≤ limit → c.Stands here → here.entries[i]? = some e →
    Goes limit sink (OfEntry (outer.length + 1) i sectionOpen e)
      (Walk.proceed limit Cursor.reader.onFst.logged w.onSnd.logged (n + e.extent)
        (.entries ⟨i, sectionOpen, handle⟩ outer)) c
      (Walk.proceed limit Cursor.reader.onFst.logged w.onSnd.logged n (.entries ⟨i + 1, true, handle⟩ outer)) c
  | .token t, outer, i, sectionOpen, c, here, _, hc, he => by
    have hfound : Cursor.reader.enter i c = (.ok (.nested t.name), c) := by
      show Cursor.enter i c = _
      rw [Cursor.enter_eq hc, he]
    have htoken : Cursor.reader.nestedToken i c = (.ok t, c) := by
      show Cursor.nestedToken i c = _
      rw [Cursor.nestedToken_eq hc, he]
    rw [Entry.extent, Walk.proceed_entries]
    cases hs : sink with
    | true =>
      rw [hs] at hw
      refine .mono (.pass ⟨i, sectionOpen, handle⟩ ⟨outer.length + 1, .token t⟩ hw hfound rfl rfl
        (goes_carryToken hw rfl htoken (.done rfl))) ?_
      rintro _ ⟨_, rfl, _, rfl, rfl⟩
      exact .token t
    | false =>
      rw [hs] at hw
      exact .stop ⟨i, sectionOpen, handle⟩ ⟨outer.length + 1, .token t⟩ hw hfound rfl rfl
        (carryToken_refused hw i _ rfl c) .token (.token t)
  | .submodule name cs es, outer, i, sectionOpen, c, here, hd, hc, he => by
    have hitems : n + (Entry.submodule name cs es).extent =
        n + 1 + Entry.totalExtent es + cs.length + 1 + 1 := by
      rw [Entry.extent]
      omega
    have hentered : Cursor.reader.enter i c =
        (.ok (.entered name), { c with path := ⟨i, c.claimsRead⟩ :: c.path, claimsRead := 0 }) := by
      show Cursor.enter i c = _
      rw [Cursor.enter_eq hc, he]
    rw [hitems, Walk.proceed_entries]
    by_cases hl : limit ≤ outer.length
    · have hlimit : outer.length = limit := Nat.le_antisymm hd hl
      obtain ⟨inner, hinner⟩ := OfEntries.possible es (outer.length + 1 + 1) 0 false
      simp only [hl, ite_true]
      refine .stop ⟨i, sectionOpen, handle⟩ ⟨outer.length + 1, .submodule name cs es⟩ hw hentered rfl ?_
        (fun t log => ⟨t, ?_⟩) (.submodule 0) (.submodule name 0 hinner)
      · simp [Visit.offends, hlimit]
      · rw [Visit.asked, List.append_nil]
        rfl
    · have hin : Cursor.Stands { c with path := ⟨i, c.claimsRead⟩ :: c.path, claimsRead := 0 + cs.length } ⟨cs, es⟩ :=
        Cursor.stands_submodule c.claimsRead (0 + cs.length) hc he
      have hclaims : Cursor.reader.ServesClaims cs { c with path := ⟨i, c.claimsRead⟩ :: c.path, claimsRead := 0 } _ :=
        Cursor.serves_claims cs (Cursor.stands_submodule c.claimsRead 0 hc he) rfl
      have hleft : Cursor.reader.exit { c with path := ⟨i, c.claimsRead⟩ :: c.path, claimsRead := 0 + cs.length } =
          (.ok (), c) := by
        show Cursor.exit _ = _
        rw [Cursor.exit_eq]
      have hoff : Visit.offends limit sink ⟨outer.length + 1, .submodule name cs es⟩ = false := by
        simp only [Visit.offends, beq_eq_false_iff_ne]
        omega
      simp only [hl, ite_false]
      refine .mono (.pass ⟨i, sectionOpen, handle⟩ ⟨outer.length + 1, .submodule name cs es⟩ hw hentered rfl hoff
        (.write (hw.accepts.openSubmodule name) fun inner =>
          .append (goes_claims hw (some inner) (⟨i + 1, true, handle⟩ :: outer) _ hclaims)
          (.append (goes_entries (some inner) n es (Nat.lt_of_not_le hl) hin rfl) (goes_up hw inner hleft _)))) ?_
      rintro _ ⟨_, rfl, inner, _, rfl, _, _, rfl, rfl, _, _, rfl, h, rfl⟩
      exact .submodule name inner h

theorem goes_entries (handle : Option Nat) (n : Nat) : ∀ (es : List Entry) {outer : List Level} {i : Nat}
    {sectionOpen : Bool} {c : Cursor} {here : ClaimSet}, outer.length ≤ limit → c.Stands here →
    here.entries.drop i = es →
    Goes limit sink (OfEntries (outer.length + 1) i sectionOpen es)
      (Walk.proceed limit Cursor.reader.onFst.logged w.onSnd.logged (n + 1 + Entry.totalExtent es)
        (.entries ⟨i, sectionOpen, handle⟩ outer)) c
      (do
        Walk.goUp Cursor.reader.onFst.logged w.onSnd.logged handle
        Walk.proceed limit Cursor.reader.onFst.logged w.onSnd.logged n (Walk.resume outer)) c
  | [], outer, i, sectionOpen, c, here, hd, hc, he => by
    have hnone : here.entries[i]? = none := by simp [← List.head?_drop, he]
    have hended : Cursor.reader.enter i c = (.ok .noMore, c) := by
      show Cursor.enter i c = _
      rw [Cursor.enter_eq hc, hnone]
    rw [Entry.totalExtent, Walk.proceed_entries]
    refine .mono (.read hended (goes_leave hw ⟨i, sectionOpen, handle⟩ c _)) ?_
    rintro _ ⟨_, rfl, rfl⟩
    exact .nil
  | first :: rest, outer, i, sectionOpen, c, here, hd, hc, he => by
    have hitems : n + 1 + Entry.totalExtent (first :: rest) = n + 1 + Entry.totalExtent rest + first.extent := by
      rw [Entry.totalExtent]
      omega
    have hfirst : here.entries[i]? = some first := by simp [← List.head?_drop, he]
    have hrest : here.entries.drop (i + 1) = rest := by simp [← List.tail_drop, he]
    rw [hitems]
    refine .mono (.append (goes_entry handle _ first hd hc hfirst) (goes_entries handle n rest hd hc hrest)) ?_
    rintro _ ⟨_, _, rfl, h, hr⟩
    exact .cons h hr

end

theorem goes_whole (m : ClaimSet) {items : Nat} (hx : m.extent ≤ items) :
    Goes limit sink (Of m)
      (Walk.proceed limit Cursor.reader.onFst.logged w.onSnd.logged items Walk.beginning) { root := m } (pure ())
      { root := m, claimsRead := m.claims.length } := by
  obtain ⟨n, rfl⟩ := Nat.exists_eq_add_of_le' hx
  have hitems : n + m.extent = n + 1 + Entry.totalExtent m.entries + m.claims.length + 1 := by
    rw [ClaimSet.extent]
    omega
  have hclaims : Cursor.reader.ServesClaims m.claims { root := m } _ :=
    Cursor.serves_claims m.claims (Cursor.stands_start m) rfl
  have hend : Cursor.Stands { root := m, claimsRead := m.claims.length } m := rfl
  have hentries : Goes limit sink (OfEntries (([] : List Level).length + 1) 0 true m.entries) _ (_ : Cursor) _ _ :=
    goes_entries hw none n m.entries (Nat.zero_le limit) hend rfl
  simp only [Walk.goUp, Walk.resume, Walk.proceed_finished, pure_bind] at hentries
  rw [hitems, Walk.beginning]
  rw [Nat.zero_add] at hclaims
  refine .mono (.append (goes_claims hw none [] _ hclaims)
    (.write (fun t => ⟨(), hw.accepts.startSection t⟩) fun _ => hentries)) ?_
  rintro _ ⟨_, _, rfl, rfl, _, _, rfl, h⟩
  exact .whole h

end

end Course

/-! ## Whole walks -/

/-- What a walk through `m` comes to. What it logs, on the reader and on the writer, is the course of `m` up to the
first offender; the calls on the writer in a whole course are a trace of `m`. -/
structure Walk.Halted (limit : Nat) (sink : Bool) (m : ClaimSet) (run : Except Error Unit × σ × List Call) : Prop where
  answer : run.1 = Visit.answer limit (m.visits.find? (Visit.offends limit sink))
  course : ∃ course, Course.Of m course ∧ Course.visits course = m.visits ∧
    Trace.Of m (written (Course.calls course)) ∧
    Course.Cut limit sink course (m.visits.find? (Visit.offends limit sink)) run.2.2

theorem Walk.proceed_halted (limit : Nat) {sink : Bool} {w : Writer τ} (hw : w.Tireless sink) (m : ClaimSet) (t : τ)
    {items : Nat} (hx : m.extent ≤ items) : Halted limit sink m
      (proceed limit Cursor.reader.onFst.logged w.onSnd.logged items beginning (({ root := m }, t), [])) := by
  obtain ⟨course, hof, hgoes⟩ := Course.goes_whole hw m hx t []
  rcases hgoes with ⟨hclear, t', hwhole⟩ | ⟨v, seen, c', t', hcut, hends⟩
  · have hnone : m.visits.find? (Visit.offends limit sink) = none := by
      rw [← hof.visits_eq]
      simpa using hclear
    rw [hwhole, List.nil_append]
    refine ⟨?_, course, hof, hof.visits_eq, hof.trace, ?_⟩
    · rw [hnone]
      rfl
    · rw [hnone]
      exact .clear hclear
  · have hsome := hcut.find
    rw [hof.visits_eq] at hsome
    rw [hends, List.nil_append]
    refine ⟨?_, course, hof, hof.visits_eq, hof.trace, ?_⟩
    · rw [hsome]
      rfl
    · rw [hsome]
      exact hcut

/-- **The first offender.** A walk ends there and nowhere before, and without one it ends by itself. -/
theorem Walk.run_halted (limit : Nat) {sink : Bool} {w : Writer τ} (hw : w.Tireless sink) (m : ClaimSet) (t : τ) :
    Halted limit sink m (run limit Cursor.reader.onFst.logged w.onSnd.logged (({ root := m }, t), [])) ∧
      ∀ items, m.extent ≤ items → Halted limit sink m
        (proceed limit Cursor.reader.onFst.logged w.onSnd.logged items beginning (({ root := m }, t), [])) :=
  ⟨proceed_halted limit hw m t (Nat.le_refl m.extent), fun _ => proceed_halted limit hw m t⟩

theorem recorder_tireless (sink : Bool) : (recorder sink).Tireless sink :=
  ⟨recorder_accepts, fun n => ⟨n, rfl⟩⟩

/-- Behind the token there is also a submodule too deep. -/
theorem Walk.run_halted_token :
    let halted := run 1 Cursor.reader.onFst.logged (recorder false).onSnd.logged (({ root := sample }, 0), [])
    (recorder false).Tireless false ∧ halted.1 = .error (.unsupported .nestedToken) ∧
      ∃ course, Course.Of sample course ∧
        Course.Cut 1 false course (some ⟨2, .token ⟨.json, "raw", [0x7b, 0x7d]⟩⟩) halted.2.2 := by
  intro halted
  have hhalted : Halted 1 false sample halted := (run_halted 1 (recorder_tireless false) sample 0).1
  obtain ⟨course, hof, -, -, hcut⟩ := hhalted.course
  exact ⟨recorder_tireless false, hhalted.answer, course, hof, hcut⟩

end ClaimRelay
