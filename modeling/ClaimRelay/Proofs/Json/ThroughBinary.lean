import ClaimRelay.Json.TextWriter
import ClaimRelay.Proofs.Arguments
import ClaimRelay.Proofs.Binary.RoundTrip
import ClaimRelay.Proofs.Writer.Passes

/-!
# JSON through the binary format

A claim set that was written and read again has the same claims and entries, but for kinds of tokens that have come
back under their name. A renderer that goes by the code of a kind does not see that, so its output is the same, and it
refuses the same.
-/

namespace ClaimRelay

variable {σ τ : Type}

/-! ## Kinds under their names -/

/-- Whether a kind of token is the same to a writer under its name. -/
def Writer.GoesByCode (w : Writer τ) : Prop :=
  ∀ t : NestedToken, w.token { t with kind := t.kind.named } = w.token t

namespace Writer.GoesByCode

variable {w : Writer τ}

mutual

theorem entry (hw : w.GoesByCode) (limit : Nat) : ∀ (depth : Nat) (e : Entry),
    w.entry limit depth e.named = w.entry limit depth e
  | depth, .submodule name cs es => by
    rw [Entry.named, Writer.entry, Writer.entry, bracket hw]
  | _, .token t => by
    rw [Entry.named, Writer.entry, Writer.entry, Writer.offer, Writer.offer, hw]

theorem bracket (hw : w.GoesByCode) (limit : Nat) : ∀ (depth : Nat) (es : List Entry),
    w.bracket limit depth (Entry.allNamed es) = w.bracket limit depth es
  | _, [] => rfl
  | depth, first :: rest => by
    rw [Entry.allNamed, Writer.bracket, Writer.bracket, entry hw, entries hw]

theorem entries (hw : w.GoesByCode) (limit : Nat) : ∀ (depth : Nat) (es : List Entry),
    w.entries limit depth (Entry.allNamed es) = w.entries limit depth es
  | _, [] => rfl
  | depth, first :: rest => by
    rw [Entry.allNamed, Writer.entries, Writer.entries, entry hw, entries hw]

end

theorem deliver (hw : w.GoesByCode) (limit : Nat) (m : ClaimSet) : w.deliver limit m.named = w.deliver limit m := by
  rw [Writer.deliver, Writer.deliver, ClaimSet.named, entries hw]

end Writer.GoesByCode

theorem Json.TextWriter.goesByCode : renderer.GoesByCode := by
  intro t
  show token _ = token t
  unfold token
  rw [TokenKind.code_named]

theorem Render.run_named {limit : Nat} {r : Reader σ} {m : ClaimSet} {s s' : σ} (hm : r.Serves m s s')
    (hx : m.extent ≤ r.extent s) {w : Renderer τ} {t : τ} (hs : w.streaming t = true) (hw : w.GoesByCode) :
    (run limit Cursor.reader.onFst w.onSnd ({ root := m.named }, t)).1 = (run limit r.onFst w.onSnd (s, t)).1 := by
  have hnamed : Cursor.reader.Serves m.named { root := m.named } _ := Binary.serves_start m.named
  rw [run_served hm hx hs, run_served hnamed (Nat.le_refl _) hs, hw.deliver]

/-! ## Tokens in between -/

namespace Binary

theorem fit_of_render {limit : Nat} {m : ClaimSet} {bytes : List UInt8}
    (h : render limit Cursor.reader { root := m } = .ok bytes) :
    (m.depth ≤ limit ∧ m.Placed) ∧ bytes = (tokenNode m).encode := by
  by_cases hm : m.depth ≤ limit ∧ m.Placed
  · rw [render_cursor hm] at h
    exact ⟨hm, (Except.ok.inj h).symm⟩
  · obtain ⟨e, he, -⟩ := render_of_unfit (serves_start m) (Nat.le_refl _) hm
    rw [he] at h
    cases h

/-- Nothing within the limit of a walk nests deeper than readers follow. -/
theorem open?_encode {m : ClaimSet} (hm : m.depth ≤ Walk.defaultLimit ∧ m.Placed)
    (hsize : (tokenNode m).encode.length < UInt64.size) : open? (tokenNode m).encode = .ok { root := m.named } := by
  have hnesting : m.nesting ≤ maxNesting := by
    have hle := m.nesting_le
    have hdepth := hm.1
    unfold Walk.defaultLimit at hdepth
    unfold maxNesting
    omega
  unfold open?
  rw [decode_tokenNode hm.2 hsize, if_pos hnesting]
  rfl

theorem render_arguments {claims : List Claim} (hclaims : ∀ c ∈ claims, c.Placed) (limit : Nat) :
    render limit Arguments.reader { claims } = .ok (tokenNode ⟨claims, []⟩).encode := by
  have hm : ClaimSet.depth ⟨claims, []⟩ ≤ limit ∧ ClaimSet.Placed ⟨claims, []⟩ :=
    ⟨Nat.zero_le _, hclaims, trivial⟩
  have hserves := Arguments.serves claims
  have htwice : ServesTwice Arguments.reader { claims } ⟨claims, []⟩ ⟨claims, []⟩ :=
    ⟨_, _, ⟨hserves, Nat.le_refl _⟩, hserves, Nat.le_refl _⟩
  exact (render_compared htwice hm hm).same rfl

end Binary

namespace Json

/-- Whether a token comes out as what the reader serves, as JSON text in every layout and from any other renderer
that needs one pass and goes by the codes of kinds. -/
def ComesOutAs (bytes : List UInt8) (r : Reader σ) (s : σ) : Prop :=
  ∃ c, Binary.open? bytes = .ok c ∧
    (∀ layout limit, render layout limit Cursor.reader c = render layout limit r s) ∧
    ∀ {τ : Type} (w : Renderer τ) (t : τ), w.streaming t = true → w.GoesByCode → ∀ limit,
      (Render.run limit Cursor.reader.onFst w.onSnd (c, t)).1 = (Render.run limit r.onFst w.onSnd (s, t)).1

theorem comesOutAs_served {r : Reader σ} {m : ClaimSet} {s s' : σ} (hm : r.Serves m s s')
    (hx : m.extent ≤ r.extent s) {bytes : List UInt8} (h : Binary.open? bytes = .ok { root := m.named }) :
    ComesOutAs bytes r s := by
  refine ⟨_, h, fun layout limit => ?_, fun w t hs hw limit => Render.run_named hm hx hs hw⟩
  exact Render.run_named hm hx rfl TextWriter.goesByCode

/-- **The binary format does not show in JSON text.** Sizes are those of a machine: the length of a body takes eight
bytes at most. -/
theorem render_through_binary :
    (∀ (m : ClaimSet) (bytes : List UInt8),
      Binary.render Walk.defaultLimit Cursor.reader { root := m } = .ok bytes →
      bytes.length < UInt64.size → ComesOutAs bytes Cursor.reader { root := m }) ∧
    ∀ (arguments : List String) (a : Arguments), Arguments.parse arguments = .ok a → ∀ limit, ∃ bytes,
      Binary.render limit Arguments.reader a = .ok bytes ∧
        (bytes.length < UInt64.size → ComesOutAs bytes Arguments.reader a) := by
  refine ⟨fun m bytes h hsize => ?_, fun arguments a h limit => ?_⟩
  · obtain ⟨hm, rfl⟩ := Binary.fit_of_render h
    exact comesOutAs_served (Binary.serves_start m) (Nat.le_refl _) (Binary.open?_encode hm hsize)
  · obtain ⟨claims, rfl, hclaims⟩ := Arguments.parse_placed h
    refine ⟨_, Binary.render_arguments hclaims limit, fun hsize => ?_⟩
    have hm : ClaimSet.depth ⟨claims, []⟩ ≤ Walk.defaultLimit ∧ ClaimSet.Placed ⟨claims, []⟩ :=
      ⟨Nat.zero_le _, hclaims, trivial⟩
    exact comesOutAs_served (Arguments.serves claims) (Nat.le_refl _) (Binary.open?_encode hm hsize)

/-- A double, and tokens of two kinds that have a name. -/
def unnamed : ClaimSet where
  claims := [⟨1, .double ⟨0x4002cccccccccccd⟩⟩]
  entries := [.token ⟨.other 1, "a", [0x30, 0x00]⟩, .token ⟨.other 2, "b", [0x7b, 0x7d]⟩]

theorem render_through_binary_unnamed :
    (∃ bytes, Binary.render Walk.defaultLimit Cursor.reader { root := unnamed } = .ok bytes ∧
      bytes.length < UInt64.size ∧ ComesOutAs bytes Cursor.reader { root := unnamed }) ∧
    ∃ a bytes, Arguments.parse ["1:true", "-2:'x'"] = .ok a ∧ Binary.render 0 Arguments.reader a = .ok bytes ∧
      bytes.length < UInt64.size ∧ ComesOutAs bytes Arguments.reader a := by
  obtain ⟨htree, harguments⟩ := render_through_binary
  have hrender : Binary.render Walk.defaultLimit Cursor.reader { root := unnamed } = _ :=
    Binary.render_cursor (by decide)
  have hsize : (Binary.tokenNode unnamed).encode.length < UInt64.size := by decide +kernel
  let a : Arguments := { claims := [⟨1, .bool true⟩, ⟨-2, .text "x"⟩] }
  have hparse : Arguments.parse ["1:true", "-2:'x'"] = .ok a := rfl
  have hwritten : Binary.render 0 Arguments.reader a = .ok [0x30, 0x10,
      0xa0, 0x06, 0x02, 0x01, 0x01, 0x01, 0x01, 0xff, 0xa0, 0x06, 0x02, 0x01, 0xfe, 0x0c, 0x01, 0x78] := rfl
  obtain ⟨bytes, hbytes, hout⟩ := harguments _ a hparse 0
  have hshort : bytes.length < UInt64.size := by
    cases hwritten.symm.trans hbytes
    decide
  exact ⟨⟨_, hrender, hsize, htree _ _ hrender hsize⟩, a, bytes, hparse, hbytes, hshort, hout hshort⟩

end Json

end ClaimRelay
