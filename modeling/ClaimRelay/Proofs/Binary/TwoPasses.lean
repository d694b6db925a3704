import ClaimRelay.Proofs.Binary.Writing
import ClaimRelay.Proofs.Walk.Lockstep

/-!
# Two passes

The first pass only counts; still every header it counts is as long as the one the second pass writes, so the
count is exact when the reader serves the same again. When it serves anything else of another size, this is
noticed, and nothing comes out.
-/

namespace ClaimRelay.Binary

variable {σ : Type} {limit : Nat} {r : Reader σ} {m a b : ClaimSet} {s s' s'' : σ}

/-! ## One pass -/

theorem pass_reaches (limit : Nat) (h : r.Serves m s s') (hx : m.extent ≤ r.extent s) (out : Buffer) :
    Reaches (Render.pass limit r.onFst TokenWriter.renderer.onSnd out) s (TokenWriter.whole limit m out)
      pure s' := Reaches.pass limit TokenWriter.renderer h hx out

theorem pass_of_fits (h : r.Serves m s s') (hx : m.extent ≤ r.extent s) (hm : m.depth ≤ limit ∧ m.Placed)
    {out : Buffer} (hout : out.size = 0) (hfits : (out.plus (tokenNode m).encode).Fits) (t : TokenWriter) :
    Render.pass limit r.onFst TokenWriter.renderer.onSnd out (s, t) =
      (.ok (out.plus (tokenNode m).encode), (s', {})) := by
  exact (pass_reaches limit h hx out).answer (TokenWriter.whole_of_fits hm hout hfits t)

theorem pass_overflows (h : r.Serves m s s') (hx : m.extent ≤ r.extent s) (hm : m.depth ≤ limit ∧ m.Placed)
    {out : Buffer} (hout : out.size = 0) (hroom : out.Fits) (hfits : ¬(out.plus (tokenNode m).encode).Fits)
    (t : TokenWriter) : ∃ e st, Render.pass limit r.onFst TokenWriter.renderer.onSnd out (s, t) = (.error e, st) ∧
      out.Overflows e := by
  obtain ⟨e, t', he, ho⟩ := TokenWriter.whole_overflows hm hout hroom hfits t
  obtain ⟨s'', hs⟩ := (pass_reaches limit h hx out).failure he
  exact ⟨e, _, hs, ho⟩

theorem pass_refused (h : r.Serves m s s') (hx : m.extent ≤ r.extent s) (hm : ¬(m.depth ≤ limit ∧ m.Placed))
    {out : Buffer} (hout : out.size = 0) (hroom : out.Fits) (t : TokenWriter) :
    ∃ e st, Render.pass limit r.onFst TokenWriter.renderer.onSnd out (s, t) = (.error e, st) ∧
      (out.Overflows e ∨ Unfit e) := by
  obtain ⟨e, t', he, ho⟩ := TokenWriter.whole_refused hm hout hroom t
  obtain ⟨s'', hs⟩ := (pass_reaches limit h hx out).failure he
  exact ⟨e, _, hs, ho⟩

/-! ## Both passes -/

def afterCounting (limit : Nat) (r : Reader σ) (measured : Nat) : Step (σ × TokenWriter) (List UInt8) := do
  let out ← Render.secondPass limit r.onFst TokenWriter.renderer.onSnd measured
  if out.size ≠ measured then throw (.sizeMismatch measured out.size)
  Render.content out

theorem run_apply (st : σ × TokenWriter) : Render.run limit r.onFst TokenWriter.renderer.onSnd st = (do
    let counted ← Render.pass limit r.onFst TokenWriter.renderer.onSnd .emptyMeasuring
    modify r.onFst.rewind
    afterCounting limit r counted.size) st := rfl

theorem render_of_fit (ha : r.Serves a s s') (hxa : a.extent ≤ r.extent s) (hma : a.depth ≤ limit ∧ a.Placed) :
    render limit r s = (afterCounting limit r (tokenNode a).encode.length (r.rewind s', {})).1 := by
  have hfits : (Buffer.emptyMeasuring.plus (tokenNode a).encode).Fits := Buffer.fits_of_unbounded rfl
  have hpass := pass_of_fits ha hxa hma rfl hfits {}
  have hsize : (Buffer.emptyMeasuring.plus (tokenNode a).encode).size = (tokenNode a).encode.length :=
    Buffer.size_plus_of_empty rfl _
  unfold render
  rw [run_apply, Step.bind_of_ok hpass, hsize]
  rfl

theorem render_of_unfit (ha : r.Serves a s s') (hxa : a.extent ≤ r.extent s)
    (hma : ¬(a.depth ≤ limit ∧ a.Placed)) :
    ∃ e, render limit r s = .error e ∧ Unfit e := by
  have hroom : Buffer.emptyMeasuring.Fits := Buffer.fits_of_unbounded rfl
  obtain ⟨e, st, he, ⟨_, _, _, hc, _⟩ | hu⟩ := pass_refused ha hxa hma rfl hroom {}
  · cases hc
  · refine ⟨e, ?_, hu⟩
    unfold render
    rw [run_apply, Step.bind_of_error he]

theorem afterCounting_of_fits (hb : r.Serves b s s') (hxb : b.extent ≤ r.extent s)
    (hmb : b.depth ≤ limit ∧ b.Placed) {measured : Nat} (h : (tokenNode b).encode.length ≤ measured) :
    (afterCounting limit r measured (s, {})).1 =
      if (tokenNode b).encode.length = measured then .ok (tokenNode b).encode
      else .error (.sizeMismatch measured (tokenNode b).encode.length) := by
  have hsize : ((Buffer.emptyFixed measured).plus (tokenNode b).encode).size = (tokenNode b).encode.length :=
    Buffer.size_plus_of_empty rfl _
  have hfits : ((Buffer.emptyFixed measured).plus (tokenNode b).encode).Fits := by
    intro c hc
    cases hc
    rwa [hsize]
  have hpass := pass_of_fits hb hxb hmb rfl hfits {}
  have hsecond : Render.secondPass limit r.onFst TokenWriter.renderer.onSnd measured (s, {}) =
      (.ok ((Buffer.emptyFixed measured).plus (tokenNode b).encode), (s', {})) := Step.tryCatch_of_ok hpass
  unfold afterCounting
  rw [Step.bind_of_ok hsecond, hsize]
  by_cases hl : (tokenNode b).encode.length = measured
  · simp only [hl, ne_eq, not_true_eq_false, ite_true, ite_false]
    rfl
  · simp only [hl, ne_eq, not_false_eq_true, ite_true, ite_false]
    rfl

theorem afterCounting_of_not_fits (hb : r.Serves b s s') (hxb : b.extent ≤ r.extent s)
    (hmb : b.depth ≤ limit ∧ b.Placed) {measured : Nat} (h : measured < (tokenNode b).encode.length) :
    ∃ actual, measured < actual ∧
      (afterCounting limit r measured (s, {})).1 = .error (.sizeMismatch measured actual) := by
  have hfits : ¬((Buffer.emptyFixed measured).plus (tokenNode b).encode).Fits := by
    intro hf
    have hle := hf measured rfl
    rw [Buffer.size_plus_of_empty rfl] at hle
    omega
  have hroom : (Buffer.emptyFixed measured).Fits := by
    intro _ _
    exact Nat.zero_le _
  obtain ⟨e, st, he, needed, capacity, rfl, hc, hlt⟩ := pass_overflows hb hxb hmb rfl hroom hfits {}
  cases hc
  have hsecond : Render.secondPass limit r.onFst TokenWriter.renderer.onSnd measured (s, {}) =
      (.error (.sizeMismatch measured needed), st) := Step.tryCatch_of_error he
  refine ⟨needed, hlt, ?_⟩
  unfold afterCounting
  rw [Step.bind_of_error hsecond]

/-! ## Parts are shorter -/

theorem length_entryNode_le {es : List Entry} {e : Entry} (h : e ∈ es) :
    (entryNode e).encode.length ≤ (Node.encodeAll (entryNodes es)).length := by
  induction es with
  | nil => cases h
  | cons first rest ih =>
    rw [entryNodes, Node.encodeAll, List.length_append]
    rcases List.mem_cons.mp h with rfl | h
    · exact Nat.le_add_right ..
    · exact Nat.le_trans (ih h) (Nat.le_add_left ..)

theorem length_entryNodes_le (es : List Entry) :
    (Node.encodeAll (entryNodes es)).length ≤ (Node.encodeAll (sectionNodes es)).length := by
  cases es with
  | nil =>
    rw [entryNodes]
    exact Nat.zero_le _
  | cons first rest =>
    rw [encode_sectionNodes]
    exact Nat.le_of_lt (body_lt_element ..)

theorem length_content (m : ClaimSet) : (tokenNode m).content.length =
    (Node.encodeAll (m.claims.map claimNode)).length + (Node.encodeAll (sectionNodes m.entries)).length := by
  rw [tokenNode, Node.content, Node.encodeAll_append, List.length_append]

theorem length_submodule_lt {m : ClaimSet} {name : String} {cs : List Claim} {es : List Entry}
    (h : Entry.submodule name cs es ∈ m.entries) :
    (tokenNode ⟨cs, es⟩).encode.length < (tokenNode m).encode.length := by
  have hentry := length_entryNode_le h
  have hentries := length_entryNodes_le m.entries
  have hcontent := length_content m
  have htoken := Node.content_lt_encode (tokenNode m)
  have hsub : (tokenNode ⟨cs, es⟩).encode.length < (entryNode (.submodule name cs es)).encode.length := by
    rw [encode_submodule, ← Node.encodeAll_append]
    refine Nat.lt_of_le_of_lt ?_ (body_lt_element ..)
    rw [List.length_append]
    exact Nat.le_add_left ..
  omega

theorem length_follow_le {root here : ClaimSet} {path : List Descent} (h : Cursor.follow root path = .ok here) :
    (tokenNode here).encode.length + path.length ≤ (tokenNode root).encode.length := by
  induction path generalizing here with
  | nil =>
    cases h
    exact Nat.le_refl _
  | cons d above ih =>
    obtain ⟨around, name, hf, he⟩ := Cursor.follow_cons h
    have hlt : (tokenNode here).encode.length < (tokenNode around).encode.length :=
      length_submodule_lt (List.mem_of_getElem? he)
    have hle := ih hf
    rw [List.length_cons]
    omega

theorem length_drop {claims : List Claim} {n : Nat} (h : n ≤ claims.length) :
    (Node.encodeAll ((claims.drop n).map claimNode)).length + n ≤
      (Node.encodeAll (claims.map claimNode)).length := by
  induction n generalizing claims with
  | zero => exact Nat.le_refl _
  | succ n ih =>
    cases claims with
    | nil => cases h
    | cons c rest =>
      have hrest := ih (Nat.le_of_succ_le_succ h)
      have hc : 0 < (claimNode c).encode.length := Nat.lt_of_le_of_lt (Nat.zero_le _) (Node.content_lt_encode _)
      rw [List.drop_succ_cons, List.map_cons, Node.encodeAll, List.length_append]
      unfold Node.encode at hc
      omega

/-- The token of what is still ahead, once anything has been read or a submodule entered, is shorter. -/
theorem length_ahead_lt {c : Cursor} {here : ClaimSet} (hc : c.Stands here)
    (hn : c.claimsRead ≤ here.claims.length) (hmoved : c.path ≠ [] ∨ c.claimsRead ≠ 0)
    (hsize : (tokenNode c.root).encode.length < UInt64.size) :
    (tokenNode (c.ahead here)).encode.length < (tokenNode c.root).encode.length := by
  have hfollow := length_follow_le hc
  have hcontent : (tokenNode (c.ahead here)).content.length + c.claimsRead ≤ (tokenNode here).content.length := by
    have hdrop := length_drop hn
    rw [length_content, length_content]
    dsimp only [Cursor.ahead]
    omega
  have hbody : (tokenNode here).content.length < UInt64.size := by
    have := Node.content_lt_encode (tokenNode here)
    omega
  have hle : (tokenNode (c.ahead here)).encode.length ≤ (tokenNode here).encode.length :=
    element_length_mono .token (by omega) hbody
  -- either claims are missing from the body, or the body is that of a submodule
  by_cases hpath : c.path = []
  · have hread : c.claimsRead ≠ 0 := hmoved.resolve_left fun h => h hpath
    have hlt : (tokenNode (c.ahead here)).encode.length < (tokenNode here).encode.length :=
      element_length_strict .token (by omega) hbody
    omega
  · have := List.length_pos_iff.mpr hpath
    omega

/-! ## Renderings -/

/-- The bytes of one pass over a claim set, into a buffer that grows. -/
def renderOnce (limit : Nat) (m : ClaimSet) : Except Error (List UInt8) :=
  ((do Render.content (← Render.pass limit Cursor.reader.onFst TokenWriter.renderer.onSnd .emptyGrowable)) :
    Step (Cursor × TokenWriter) (List UInt8)) ({ root := m }, {}) |>.1

theorem renderOnce_eq (hm : m.depth ≤ limit ∧ m.Placed) : renderOnce limit m = .ok (tokenNode m).encode := by
  have hserves : Cursor.reader.Serves m { root := m } _ := Cursor.serves (Cursor.stands_start m) (Nat.zero_le _)
  have hx : m.extent ≤ Cursor.reader.extent { root := m } := Nat.le_refl _
  have hfits : (Buffer.emptyGrowable.plus (tokenNode m).encode).Fits := Buffer.fits_of_unbounded rfl
  have hpass := pass_of_fits hserves hx hm rfl hfits {}
  unfold renderOnce
  rw [Step.bind_of_ok hpass]
  rfl

/-- Whether a reader serves `a` from `s` on, and `b` once it is rewound behind it, and has announced as much. -/
def ServesTwice (r : Reader σ) (s : σ) (a b : ClaimSet) : Prop :=
  ∃ s' s'', (r.Serves a s s' ∧ a.extent ≤ r.extent s) ∧
    r.Serves b (r.rewind s') s'' ∧ b.extent ≤ r.extent (r.rewind s')

/-- What rendering comes to when the first pass counts `first` and the second one has `second` to write. -/
structure Compared (first second : List UInt8) (rendered : Except Error (List UInt8)) : Prop where
  same (h : first.length = second.length) : rendered = .ok second
  shorter (h : second.length < first.length) : rendered = .error (.sizeMismatch first.length second.length)
  longer (h : first.length < second.length) :
    ∃ actual, first.length < actual ∧ rendered = .error (.sizeMismatch first.length actual)

theorem Compared.ok_iff {first second : List UInt8} {rendered : Except Error (List UInt8)}
    (h : Compared first second rendered) : (∃ bytes, rendered = .ok bytes) ↔ first.length = second.length := by
  refine ⟨fun ⟨bytes, hok⟩ => ?_, fun heq => ⟨_, h.same heq⟩⟩
  rcases Nat.lt_trichotomy first.length second.length with hl | hl | hl
  · obtain ⟨actual, -, he⟩ := h.longer hl
    rw [he] at hok
    cases hok
  · exact hl
  · rw [h.shorter hl] at hok
    cases hok

theorem render_compared (h : ServesTwice r s a b) (ha : a.depth ≤ limit ∧ a.Placed)
    (hb : b.depth ≤ limit ∧ b.Placed) :
    Compared (tokenNode a).encode (tokenNode b).encode (render limit r s) := by
  obtain ⟨s', s'', ⟨hsa, hxa⟩, hsb, hxb⟩ := h
  rw [render_of_fit hsa hxa ha]
  refine ⟨fun hl => ?_, fun hl => ?_, fun hl => afterCounting_of_not_fits hsb hxb hb hl⟩
  · rw [afterCounting_of_fits hsb hxb hb (Nat.le_of_eq hl.symm), if_pos hl.symm]
  · rw [afterCounting_of_fits hsb hxb hb (Nat.le_of_lt hl), if_neg (Nat.ne_of_lt hl)]

theorem ahead_served {c : Cursor} {here : ClaimSet} (hc : c.Stands here) (hn : c.claimsRead ≤ here.claims.length) :
    ServesTwice Cursor.reader c (c.ahead here) c.root :=
  ⟨_, _, ⟨Cursor.serves hc hn, Cursor.extent_ahead_le hc⟩,
    Cursor.serves (Cursor.stands_start c.root) (Nat.zero_le _), Nat.le_refl _⟩

theorem ahead_fit {c : Cursor} {here : ClaimSet} (hc : c.Stands here) (hm : c.root.depth ≤ limit ∧ c.root.Placed) :
    (c.ahead here).depth ≤ limit ∧ (c.ahead here).Placed := by
  have hdepth : here.depth + c.path.length ≤ c.root.depth := Cursor.depth_le_of_follow hc
  obtain ⟨hclaims, hentries⟩ := Cursor.placed_of_follow hm.2 hc
  refine ⟨?_, fun c' hmem => hclaims c' (List.mem_of_mem_drop hmem), hentries⟩
  show here.depth ≤ limit
  omega

/-- **Two passes.** Sizes are those of a machine: the length of a body takes eight bytes at most. -/
theorem render_two_passes (limit : Nat) :
    (∀ {σ : Type} (r : Reader σ) (s : σ) (a b : ClaimSet), ServesTwice r s a b →
      a.depth ≤ limit ∧ a.Placed → b.depth ≤ limit ∧ b.Placed →
      ∃ first second, renderOnce limit a = .ok first ∧ renderOnce limit b = .ok second ∧
        ((∃ bytes, render limit r s = .ok bytes) ↔ first.length = second.length) ∧
        Compared first second (render limit r s)) ∧
    (∀ {σ : Type} (r : Reader σ) (s : σ) (a : ClaimSet), ServesTwice r s a a → ∀ n k,
      render limit r s ≠ .error (.sizeMismatch n k) ∧ render limit r s ≠ .error (.overflow n k)) ∧
    ∀ (root : ClaimSet) (c : Cursor), Cursor.Reachable root c → (c.path ≠ [] ∨ c.claimsRead ≠ 0) →
      root.depth ≤ limit ∧ root.Placed → ∀ whole, renderOnce limit root = .ok whole → whole.length < UInt64.size →
      ∃ here ahead, c.Stands here ∧ renderOnce limit (c.ahead here) = .ok ahead ∧
        ∃ actual, ahead.length < actual ∧
          render limit Cursor.reader c = .error (.sizeMismatch ahead.length actual) := by
  refine ⟨fun r s a b h ha hb => ?_, fun r s a h n k => ?_, fun root c h hmoved hm whole hwhole hsize => ?_⟩
  · have hcompared := render_compared h ha hb
    exact ⟨_, _, renderOnce_eq ha, renderOnce_eq hb, hcompared.ok_iff, hcompared⟩
  · by_cases ha : a.depth ≤ limit ∧ a.Placed
    · rw [(render_compared h ha ha).same rfl]
      exact ⟨nofun, nofun⟩
    · obtain ⟨s', s'', ⟨hsa, hxa⟩, -⟩ := h
      obtain ⟨e, he, hu⟩ := render_of_unfit hsa hxa ha
      rw [he]
      refine ⟨fun heq => ?_, fun heq => ?_⟩ <;> cases heq <;> exact hu
  · rw [renderOnce_eq hm] at hwhole
    cases hwhole
    obtain ⟨here, hc, hn⟩ := h.stands
    obtain ⟨rfl, -⟩ := h.sound
    have hahead := ahead_fit hc hm
    have hlt := length_ahead_lt hc hn hmoved hsize
    exact ⟨here, _, hc, renderOnce_eq hahead, (render_compared (ahead_served hc hn) hahead hm).longer hlt⟩

/-- A cursor that stands before another claim set when it is rewound. -/
def replaced (m : ClaimSet) : Reader Cursor := { Cursor.reader with rewind := fun _ => { root := m } }

theorem render_two_passes_replaced :
    let less : ClaimSet := ⟨[⟨1, .null⟩], []⟩
    let more : ClaimSet := ⟨[⟨1, .null⟩], [.submodule "a" [] []]⟩
    (∃ first second, renderOnce 1 less = .ok first ∧ renderOnce 1 more = .ok second ∧
      Compared first second (render 1 (replaced more) { root := less })) ∧
    (∀ n k, render 1 Cursor.reader { root := more } ≠ .error (.sizeMismatch n k)) ∧
    ∃ measured actual, measured < actual ∧
      render 1 Cursor.reader { root := more, claimsRead := 1 } = .error (.sizeMismatch measured actual) := by
  intro less more
  have hless : less.depth ≤ 1 ∧ less.Placed := by decide
  have hmore : more.depth ≤ 1 ∧ more.Placed := by decide
  have hreplaced : ServesTwice (replaced more) { root := less } less more :=
    ⟨_, _, ⟨⟨_, .cons rfl (.nil rfl), .nil rfl⟩, by decide⟩,
      ⟨_, .cons rfl (.nil rfl), .cons (.submodule rfl (.nil rfl) (.nil rfl) rfl) (.nil rfl)⟩, by decide⟩
  have hfaithful : ServesTwice Cursor.reader { root := more } more more :=
    ahead_served (Cursor.stands_start more) (Nat.zero_le _)
  obtain ⟨htwo, hsame, hmoved⟩ := render_two_passes 1
  obtain ⟨first, second, hfirst, hsecond, -, hcompared⟩ := htwo _ _ less more hreplaced hless hmore
  obtain ⟨here, ahead, -, -, actual, hlt, he⟩ := hmoved more _ (.nextClaim .start) (.inr (by decide)) hmore _
    (renderOnce_eq hmore) (by decide +kernel)
  refine ⟨⟨first, second, hfirst, hsecond, hcompared⟩, fun n k => ?_, _, actual, hlt, he⟩
  exact (hsame _ _ more hfaithful n k).1

end ClaimRelay.Binary
