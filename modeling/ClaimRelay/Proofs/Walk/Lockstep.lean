import ClaimRelay.Proofs.ClaimSet.Cursor
import ClaimRelay.Proofs.Walk.Delivery
import ClaimRelay.Render

/-!
# Walks in lockstep with delivery

A walk keeps a stack of levels and asks its reader what comes next; `deliver` knows the claim set. Where the
reader's answers, in the order in which a walk asks, are a claim set, the two do the same to a writer,
whatever that answers (`Reaches.deliver`).
-/

namespace ClaimRelay

variable {ς σ τ α β γ : Type}

/-! ## What a reader serves -/

namespace Reader

/-- The claims answered from `s` on, up to the first answer that there are no more. -/
inductive ServesClaims (r : Reader σ) : List Claim → σ → σ → Prop
  | nil {s s' : σ} (h : r.nextClaim s = (.ok none, s')) : ServesClaims r [] s s'
  | cons {c : Claim} {rest : List Claim} {s s₁ s' : σ} (h : r.nextClaim s = (.ok (some c), s₁))
    (hr : ServesClaims r rest s₁ s') : ServesClaims r (c :: rest) s s'

mutual

inductive ServesEntry (r : Reader σ) : Nat → Entry → σ → σ → Prop
  | token {i : Nat} {name : String} {t : NestedToken} {s s₁ s' : σ} (h : r.enter i s = (.ok (.nested name), s₁))
    (ht : r.nestedToken i s₁ = (.ok t, s')) : ServesEntry r i (.token t) s s'
  | submodule {i : Nat} {name : String} {claims : List Claim} {entries : List Entry} {s s₁ s₂ s₃ s' : σ}
    (h : r.enter i s = (.ok (.entered name), s₁)) (hc : ServesClaims r claims s₁ s₂)
    (he : ServesEntries r 0 entries s₂ s₃) (hx : r.exit s₃ = (.ok (), s')) :
    ServesEntry r i (.submodule name claims entries) s s'

inductive ServesEntries (r : Reader σ) : Nat → List Entry → σ → σ → Prop
  | nil {i : Nat} {s s' : σ} (h : r.enter i s = (.ok .noMore, s')) : ServesEntries r i [] s s'
  | cons {i : Nat} {first : Entry} {rest : List Entry} {s s₁ s' : σ} (h : ServesEntry r i first s s₁)
    (hr : ServesEntries r (i + 1) rest s₁ s') : ServesEntries r i (first :: rest) s s'

end

/-- Whether the claim set `m` is what the reader serves from `s` on, and `s'` where it comes to. -/
def Serves (r : Reader σ) (m : ClaimSet) (s s' : σ) : Prop :=
  ∃ s₁, r.ServesClaims m.claims s s₁ ∧ r.ServesEntries 0 m.entries s₁ s'

end Reader

/-- A reader serves a list that it answers from place to place. -/
theorem Reader.servesClaims_of_nextClaim (r : Reader σ) {claims : List Claim} (place : Nat → σ)
    (h : ∀ n, r.nextClaim (place n) = match claims[n]? with
      | some c => (.ok (some c), place (n + 1))
      | none => (.ok none, place n)) (rest : List Claim) {n : Nat} (hd : claims.drop n = rest) :
    r.ServesClaims rest (place n) (place (n + rest.length)) := by
  induction rest generalizing n with
  | nil =>
    have hnone : claims[n]? = none := by simp [← List.head?_drop, hd]
    apply Reader.ServesClaims.nil
    rw [h, hnone]
    rfl
  | cons first rest ih =>
    have hsome : claims[n]? = some first := by simp [← List.head?_drop, hd]
    have hrest : claims.drop (n + 1) = rest := by simp [← List.tail_drop, hd]
    have hnext : r.nextClaim (place n) = (.ok (some first), place (n + 1)) := by rw [h, hsome]
    rw [List.length_cons, Nat.add_comm rest.length, ← Nat.add_assoc]
    exact .cons hnext (ih hrest)

/-! ## A walk, item by item -/

namespace Walk

variable (limit : Nat) (r : Reader ς) (w : Writer ς) (n : Nat)

theorem proceed_finished : proceed limit r w n .finished = pure () := by
  cases n <;> rfl

theorem proceed_claims (handle : Option Nat) (outer : List Level) :
    proceed limit r w (n + 1) (.claims handle outer) = (do
      match ← r.nextClaim with
      | some c =>
        w.claim c
        proceed limit r w n (.claims handle outer)
      | none =>
        if handle.isNone then w.startSection
        proceed limit r w n (.entries ⟨0, handle.isNone, handle⟩ outer)) := by
  rw [proceed, advance, bind_assoc]
  · congr 1; funext answer
    cases answer with
    | some c => simp only [bind_assoc, pure_bind]
    | none => cases handle <;> simp
  · exact fun h => Walk.noConfusion h

theorem proceed_entries (level : Level) (outer : List Level) :
    proceed limit r w (n + 1) (.entries level outer) = (do
      match ← r.enter level.next with
      | .noMore =>
        leave r w level
        proceed limit r w n (resume outer)
      | .entered name =>
        openSection w level
        if limit ≤ outer.length then throw (.tooDeep limit)
        let handle ← w.openSubmodule name
        proceed limit r w n (.claims (some handle) (level.afterEntry :: outer))
      | .nested _ =>
        openSection w level
        carryToken r w level.next
        proceed limit r w n (.entries level.afterEntry outer)) := by
  rw [proceed, advance, bind_assoc]
  · congr 1; funext slot
    cases slot with
    | noMore => simp only [bind_assoc, pure_bind]
    | nested _ => simp only [bind_assoc, pure_bind]
    | entered name =>
      simp only [bind_assoc]
      congr 1; funext _
      split <;> simp only [bind_assoc, pure_bind]
  · exact fun h => Walk.noConfusion h

theorem openSection_onSnd (w : Writer τ) (level : Level) :
    openSection (w.onSnd : Writer (σ × τ)) level = (openSection w level).onSnd := by
  unfold openSection
  split <;> rfl

end Walk

/-! ## Steps of a walk against steps of its writer -/

/-- From the reader's state `s`, the step `x` does to the writer's state what `y` does. Where `y` answers, `x`
goes on as `z` with the reader in `s'`; where `y` fails, so does `x`. -/
def Reaches (x : Step (σ × τ) β) (s : σ) (y : Step τ α) (z : α → Step (σ × τ) β) (s' : σ) : Prop :=
  ∀ t, match y t with
    | (.ok a, t') => x (s, t) = z a (s', t')
    | (.error e, t') => ∃ s'', x (s, t) = (.error e, (s'', t'))

namespace Reaches

variable {x : Step (σ × τ) β} {s s₁ s' : σ} {y : Step τ α} {z : α → Step (σ × τ) β}

theorem answer {t t' : τ} {a : α} (hx : Reaches x s y z s') (hy : y t = (.ok a, t')) :
    x (s, t) = z a (s', t') := by
  have hs := hx t
  rwa [hy] at hs

theorem failure {t t' : τ} {e : Error} (hx : Reaches x s y z s') (hy : y t = (.error e, t')) :
    ∃ s'', x (s, t) = (.error e, (s'', t')) := by
  have hs := hx t
  rwa [hy] at hs

theorem bind {f : α → Step τ γ} {z' : γ → Step (σ × τ) β} (hx : Reaches x s y z s₁)
    (hz : ∀ a, Reaches (z a) s₁ (f a) z' s') : Reaches x s (y >>= f) z' s' := by
  intro t
  rcases hy : y t with ⟨e | a, t'⟩
  · rw [Step.bind_of_error hy]
    exact hx.failure hy
  · rw [Step.bind_of_ok hy, hx.answer hy]
    exact hz a t'

theorem done {a : α} (h : x = z a) : Reaches x s (pure a) z s := by
  intro t
  exact congrFun h (s, t)

theorem write (call : Step τ α) (k : α → Step (σ × τ) β) : Reaches (call.onSnd >>= k) s call k s := by
  intro t
  rcases hc : call t with ⟨e | a, t'⟩
  · have hfailed : call.onSnd (s, t) = (.error e, (s, t')) := by simp only [Step.onSnd, hc]
    exact ⟨s, Step.bind_of_error hfailed⟩
  · have hanswered : call.onSnd (s, t) = (.ok a, (s, t')) := by simp only [Step.onSnd, hc]
    exact Step.bind_of_ok hanswered

theorem read {call : Step σ γ} {a : γ} {k : γ → Step (σ × τ) β} (h : call s = (.ok a, s₁))
    (hk : Reaches (k a) s₁ y z s') : Reaches (call.onFst >>= k) s y z s' := by
  intro t
  have hc : call.onFst (s, t) = (.ok a, (s₁, t)) := by simp only [Step.onFst, h]
  rw [Step.bind_of_ok hc]
  exact hk t

theorem followed {k : β → Step (σ × τ) γ} (hx : Reaches x s y z s') :
    Reaches (x >>= k) s y (fun a => z a >>= k) s' := by
  intro t
  rcases hy : y t with ⟨e | a, t'⟩
  · obtain ⟨s'', he⟩ := hx.failure hy
    exact ⟨s'', Step.bind_of_error he⟩
  · show (x >>= k) (s, t) = (z a >>= k) (s', t')
    rw [Step.bind_apply, Step.bind_apply, hx.answer hy]

theorem refuse (e : Error) (k : γ → Step (σ × τ) β) : Reaches (throw e >>= k) s (throw e : Step τ α) z s' :=
  fun _ => ⟨s, rfl⟩

variable {limit : Nat} {r : Reader σ} {w : Writer τ}

theorem claims (handle : Option Nat) (outer : List Level) (n : Nat) {cs : List Claim} {s s' : σ}
    (hc : r.ServesClaims cs s s') :
    Reaches (Walk.proceed limit r.onFst w.onSnd (n + cs.length + 1) (.claims handle outer)) s (w.claims cs)
      (fun _ => do
        if handle.isNone then w.onSnd.startSection
        Walk.proceed limit r.onFst w.onSnd n (.entries ⟨0, handle.isNone, handle⟩ outer)) s' := by
  induction hc with
  | nil h =>
    rw [Walk.proceed_claims, Writer.claims]
    exact .read h (.done rfl)
  | cons h _ ih =>
    rw [Walk.proceed_claims, Writer.claims]
    exact .read h (.bind (.write _ _) fun _ => ih)

theorem carryToken {i : Nat} {t : NestedToken} (h : r.nestedToken i s = (.ok t, s'))
    (k : Unit → Step (σ × τ) β) : Reaches (Walk.carryToken r.onFst w.onSnd i >>= k) s (w.offer t) k s' := by
  unfold Walk.carryToken Writer.offer
  rw [bind_assoc]
  refine .bind (.write (modifyGet w.takesTokens) _) fun taken => ?_
  cases taken with
  | false => exact .refuse _ _
  | true =>
    simp only [ite_true, bind_assoc]
    exact .read h (.write _ _)

mutual

theorem entry (sectionOpen : Bool) (handle : Option Nat) (outer : List Level) (n : Nat) :
    ∀ (e : Entry) {i : Nat} {s s' : σ}, r.ServesEntry i e s s' →
    Reaches (Walk.proceed limit r.onFst w.onSnd (n + e.extent) (.entries ⟨i, sectionOpen, handle⟩ outer)) s
      (do Walk.openSection w ⟨i, sectionOpen, handle⟩; w.entry limit outer.length e)
      (fun _ => Walk.proceed limit r.onFst w.onSnd n (.entries ⟨i + 1, true, handle⟩ outer)) s'
  | .token t, _, _, _, .token h ht => by
    rw [Entry.extent, Walk.proceed_entries, Walk.openSection_onSnd, Writer.entry]
    exact .read h (.bind (.write _ _) fun _ => .carryToken ht _)
  | .submodule name cs es, i, _, _, .submodule h hc he hx => by
    -- an item for entering, one for each claim and for their end, and those of `bracket`
    have hitems : n + (Entry.submodule name cs es).extent =
        n + 1 + Entry.totalExtent es + cs.length + 1 + 1 := by
      rw [Entry.extent]
      omega
    rw [hitems, Walk.proceed_entries, Walk.openSection_onSnd, Writer.entry]
    refine .read h (.bind (.write _ _) fun _ => ?_)
    by_cases hl : limit ≤ outer.length
    · simp only [hl, ite_true]
      exact .refuse _ _
    · simp only [hl, ite_false]
      refine .bind (.write _ _) fun inner => ?_
      refine .bind (claims (some inner) (⟨i + 1, true, handle⟩ :: outer) _ hc) fun _ => ?_
      simp only [Option.isNone_some, Bool.false_eq_true, ite_false]
      refine .bind (bracket (some inner) (⟨i + 1, true, handle⟩ :: outer) n es he) fun _ => ?_
      rw [Walk.goUp, bind_assoc]
      exact .read hx (.write _ _)

theorem bracket (handle : Option Nat) (outer : List Level) (n : Nat) :
    ∀ (es : List Entry) {s s' : σ}, r.ServesEntries 0 es s s' →
    Reaches
      (Walk.proceed limit r.onFst w.onSnd (n + 1 + Entry.totalExtent es) (.entries ⟨0, false, handle⟩ outer)) s
      (w.bracket limit outer.length es)
      (fun _ => do Walk.goUp r.onFst w.onSnd handle; Walk.proceed limit r.onFst w.onSnd n (Walk.resume outer)) s'
  | [], _, _, .nil h => by
    rw [Entry.totalExtent, Walk.proceed_entries, Writer.bracket]
    exact .read h (.done rfl)
  | first :: rest, _, _, .cons h hr => by
    have hitems : n + 1 + Entry.totalExtent (first :: rest) = n + 1 + Entry.totalExtent rest + first.extent := by
      rw [Entry.totalExtent]
      omega
    rw [hitems, Writer.bracket, ← bind_assoc]
    exact .bind (entry false handle outer _ first h) fun _ => entries handle outer n rest hr

theorem entries (handle : Option Nat) (outer : List Level) (n : Nat) :
    ∀ (es : List Entry) {i : Nat} {s s' : σ}, r.ServesEntries i es s s' →
    Reaches
      (Walk.proceed limit r.onFst w.onSnd (n + 1 + Entry.totalExtent es) (.entries ⟨i, true, handle⟩ outer)) s
      (do w.entries limit outer.length es; w.endSection)
      (fun _ => do Walk.goUp r.onFst w.onSnd handle; Walk.proceed limit r.onFst w.onSnd n (Walk.resume outer)) s'
  | [], _, _, _, .nil h => by
    rw [Entry.totalExtent, Walk.proceed_entries, Writer.entries, pure_bind, Walk.leave]
    refine .read h ?_
    rw [if_pos rfl, bind_assoc]
    exact .write _ _
  | first :: rest, _, _, _, .cons h hr => by
    have hitems : n + 1 + Entry.totalExtent (first :: rest) = n + 1 + Entry.totalExtent rest + first.extent := by
      rw [Entry.totalExtent]
      omega
    rw [hitems, Writer.entries, bind_assoc]
    exact .bind (entry true handle outer _ first h) fun _ => entries handle outer n rest hr

end

/-- **Lockstep.** A walk with room for all that is served does to the writer what delivery does. -/
theorem deliver {m : ClaimSet} {s s' : σ} (h : r.Serves m s s') {items : Nat} (hx : m.extent ≤ items) :
    Reaches (Walk.proceed limit r.onFst w.onSnd items Walk.beginning) s (w.deliver limit m)
      (fun _ => pure ()) s' := by
  obtain ⟨n, rfl⟩ := Nat.exists_eq_add_of_le' hx
  obtain ⟨s₁, hc, he⟩ := h
  have hitems : n + m.extent = n + 1 + Entry.totalExtent m.entries + m.claims.length + 1 := by
    rw [ClaimSet.extent]
    omega
  rw [hitems, Walk.beginning, Writer.deliver]
  refine .bind (claims none [] _ hc) fun _ => ?_
  simp only [Option.isNone_none, ite_true]
  refine .bind (.write _ _) fun _ => ?_
  have hend : Reaches (Walk.proceed limit r.onFst w.onSnd (n + 1 + Entry.totalExtent m.entries) _) s₁ _ _ s' :=
    entries none [] n m.entries he
  simpa only [Walk.goUp, Walk.resume, Walk.proceed_finished, pure_bind, List.length_nil] using hend

theorem pass (limit : Nat) (w : Renderer τ) {m : ClaimSet} {s s' : σ} (h : r.Serves m s s')
    (hx : m.extent ≤ r.extent s) (out : Buffer) :
    Reaches (Render.pass limit r.onFst w.onSnd out) s (do w.start out; w.deliver limit m; w.finish) pure s' := by
  have hrun : Reaches (Walk.run limit r.onFst w.toWriter.onSnd) s (w.deliver limit m) (fun _ => pure ()) s' :=
    deliver h hx
  refine .bind (.write (w.start out) _) fun _ => .bind hrun.followed fun _ => ?_
  have hfinish : Reaches (w.finish.onSnd >>= pure) s' w.finish pure s' := .write _ _
  rw [pure_bind]
  rwa [bind_pure] at hfinish

end Reaches

/-! ## What cursors serve -/

namespace Cursor

/-- What a cursor that stands in `here` has still to read. -/
def ahead (c : Cursor) (here : ClaimSet) : ClaimSet := ⟨here.claims.drop c.claimsRead, here.entries⟩

theorem extent_ahead_le {c : Cursor} {here : ClaimSet} (hc : c.Stands here) :
    (c.ahead here).extent ≤ c.root.extent := by
  have hle := extent_le_of_follow hc
  simp only [ClaimSet.extent, ahead, List.length_drop] at *
  omega

theorem serves_claims (rest : List Claim) {c : Cursor} {here : ClaimSet} (hc : c.Stands here)
    (hd : here.claims.drop c.claimsRead = rest) :
    reader.ServesClaims rest c { c with claimsRead := c.claimsRead + rest.length } := by
  have hplace (n : Nat) : Stands { c with claimsRead := n } here := hc
  exact reader.servesClaims_of_nextClaim _ (fun n => nextClaim_eq (hplace n)) rest hd

mutual

theorem serves_entry : ∀ (e : Entry) {c : Cursor} {here : ClaimSet} {i : Nat}, c.Stands here →
    here.entries[i]? = some e → reader.ServesEntry i e c c
  | .token t, c, here, i, hc, he => by
    have hfound : reader.enter i c = (.ok (.nested t.name), c) := by
      show enter i c = _
      rw [enter_eq hc, he]
    have htoken : reader.nestedToken i c = (.ok t, c) := by
      show nestedToken i c = _
      rw [nestedToken_eq hc, he]
    exact .token hfound htoken
  | .submodule name cs es, c, here, i, hc, he => by
    have hclaims := serves_claims cs (stands_submodule c.claimsRead 0 hc he) rfl
    have hin := stands_submodule c.claimsRead (0 + cs.length) hc he
    refine .submodule ?_ hclaims (serves_entries es hin rfl) ?_
    · show enter i c = _
      rw [enter_eq hc, he]
    · show exit _ = _
      rw [exit_eq]

theorem serves_entries : ∀ (rest : List Entry) {c : Cursor} {here : ClaimSet} {i : Nat}, c.Stands here →
    here.entries.drop i = rest → reader.ServesEntries i rest c c
  | [], c, here, i, hc, hd => by
    have hnone : here.entries[i]? = none := by simp [← List.head?_drop, hd]
    refine .nil ?_
    show enter i c = _
    rw [enter_eq hc, hnone]
  | first :: rest, c, here, i, hc, hd => by
    have hfirst : here.entries[i]? = some first := by simp [← List.head?_drop, hd]
    have hrest : here.entries.drop (i + 1) = rest := by simp [← List.tail_drop, hd]
    exact .cons (serves_entry first hc hfirst) (serves_entries rest hc hrest)

end

theorem serves {c : Cursor} {here : ClaimSet} (hc : c.Stands here) (hn : c.claimsRead ≤ here.claims.length) :
    reader.Serves (c.ahead here) c { c with claimsRead := here.claims.length } := by
  have hread : c.claimsRead + (here.claims.drop c.claimsRead).length = here.claims.length := by
    rw [List.length_drop, Nat.add_sub_cancel' hn]
  have hclaims := serves_claims _ hc rfl
  rw [hread] at hclaims
  exact ⟨_, hclaims, serves_entries here.entries hc rfl⟩

end Cursor

end ClaimRelay
