import ClaimRelay.Proofs.Arguments
import ClaimRelay.Proofs.Binary.Faults
import ClaimRelay.Proofs.Binary.Rewriting
import ClaimRelay.Proofs.CommandLine.Saving
import ClaimRelay.Proofs.Json.Rendering
import ClaimRelay.Proofs.Json.ThroughBinary
import ClaimRelay.Proofs.Writer.Sessions

/-!
# Whole outputs

A command line reads, decodes and renders before it writes, and it writes once. So what it leaves behind is all of the
output, or no more than the line of the first step that failed, whatever host it runs on. On a directory this is said
of its files.
-/

namespace ClaimRelay.CommandLine

variable {σ ς : Type}

/-! ## What the options ask for -/

namespace Given

/-- The place that goes by a name. A hyphen is no file. -/
inductive Names : String → Place → Prop
  | hyphen : Names "-" .standard
  | path {path : String} (h : path ≠ "-") : Names path (.file path)

/-- Where the output goes, which is the standard output when nothing is said of it. -/
inductive To (g : Given) : Place → Prop
  | unnamed (h : g.output = none) : To g .standard
  | named {name : String} {place : Place} (h : g.output = some name) (hp : Names name place) : To g place

def limit (g : Given) : Nat := g.maxDepth.getD Walk.defaultLimit

def rendering (g : Given) (r : Reader σ) (s : σ) : Except Error (List UInt8) :=
  match g.format with
  | some .binary => Binary.render g.limit r s
  | _ => Json.render (if g.pretty then .pretty else .compact) g.limit r s

/-- What comes behind the rendering. -/
def ending (g : Given) : List UInt8 :=
  match g.format with
  | some .binary => []
  | _ => [0x0a]

/-- What is said of a success. -/
def notes (g : Given) (bytes : List UInt8) : List String :=
  if g.verbose then [s!"{bytes.length} bytes written"] else []

/-- The whole output, or the line of the first error. -/
inductive Renders (g : Given) (r : Reader σ) (s : σ) : Except String (List UInt8) → Prop
  | whole {bytes : List UInt8} (h : g.rendering r s = .ok bytes) : Renders g r s (.ok (bytes ++ g.ending))
  | tooDeep (h : g.rendering r s = .error (.tooDeep g.limit)) :
    Renders g r s (.error s!"error: submodule nesting exceeds the limit of {g.limit}")
  | repeatedKey {key : String} (hf : g.format ≠ some .binary)
    (h : g.rendering r s = .error (.structural (.repeatedKey key))) :
    Renders g r s (.error s!"error: structure: key {Text.quoted key} repeated within one JSON object")

/-- What is told of bytes that are no token. -/
inductive Line : Binary.Refusal → String → Prop
  | cutShort : Line .cutShort "decoder: parser error Eof"
  | lengthTooLarge : Line .lengthTooLarge "decoder: parser error TooLarge"
  | incomplete : Line .incomplete "decoder: parser incomplete: Size(1)"
  | empty : Line .empty "decoder: empty input"
  | trailingBytes {count : Nat} : Line (.trailingBytes count) s!"decoder: {count} trailing bytes after the token"
  | tooDeep {limit : Nat} : Line (.tooDeep limit) s!"submodule nesting exceeds the limit of {limit}"
  | unexpectedTag {found : UInt8} {place : Binary.Place} : Line (.unexpectedTag found place)
    s!"decoder: unexpected tag 0x{String.ofList (Text.hexPair found)} in {place.name}"
  | invalidValue {content : Binary.Content} :
    Line (.invalidValue content) s!"decoder: {content.name}: invalid encoding"
  | unexpectedStructured {label : Label} : Line (.unexpectedStructured label)
    s!"decoder: structured value under label {label}, which carries no structured payload"

inductive TokenComesTo (g : Given) (token : List UInt8) : Except String (List UInt8) → Prop
  | malformed {refusal : Binary.Refusal} {line : String} (hd : Binary.open? token = .error refusal)
    (hl : Line refusal line) : TokenComesTo g token (.error s!"error: {line}")
  | decoded {cursor : Cursor} {result : Except String (List UInt8)} (hd : Binary.open? token = .ok cursor)
    (h : g.Renders Cursor.reader cursor result) : TokenComesTo g token result

inductive ClaimsComeTo (g : Given) : Except String (List UInt8) → Prop
  | noClaim {argument : String} (hp : Arguments.parse g.claims = .error (.invalidClaim argument)) :
    ClaimsComeTo g (.error s!"error: invalid claim argument {Text.quoted argument}: expected LABEL:VALUE")
  | noHex {argument : String} (hp : Arguments.parse g.claims = .error (.invalidHex argument)) :
    ClaimsComeTo g (.error s!"error: invalid hex in claim argument {Text.quoted argument}")
  | parsed {claims : Arguments} {result : Except String (List UInt8)} (hp : Arguments.parse g.claims = .ok claims)
    (h : g.Renders Arguments.reader claims result) : ClaimsComeTo g result

/-- What a command line comes to before it writes, and the host's state then. -/
inductive Prepares (g : Given) (host : Host (StateM ς)) (s : ς) : Except String (List UInt8) → ς → Prop
  | unread {name : String} {place : Place} {report : String} {s' : ς} (hi : g.input = some name)
    (hp : Names name place) (hr : host.read place s = (.error report, s')) :
    Prepares g host s (.error s!"error: IO error: {report}") s'
  | token {name : String} {place : Place} {token : List UInt8} {result : Except String (List UInt8)} {s' : ς}
    (hi : g.input = some name) (hp : Names name place) (hr : host.read place s = (.ok token, s'))
    (h : g.TokenComesTo token result) : Prepares g host s result s'
  | claims {result : Except String (List UInt8)} (hi : g.input = none) (h : g.ClaimsComeTo result) :
    Prepares g host s result s

/-- What becomes of it: one write, if there is something to write. -/
inductive Concludes (g : Given) (host : Host (StateM ς)) (s : ς) : Except String (List UInt8) → Nat × ς → Prop
  | failed {line : String} : Concludes g host s (.error line) (1, (host.complain line s).2)
  | unwritten {place : Place} {bytes : List UInt8} {report : String} {s' : ς} (hp : g.To place)
    (hw : host.write place bytes s = (.error report, s')) :
    Concludes g host s (.ok bytes) (1, (host.complain s!"error: IO error: {report}" s').2)
  | written {place : Place} {bytes : List UInt8} {s' : ς} (hp : g.To place)
    (hw : host.write place bytes s = (.ok (), s')) :
    Concludes g host s (.ok bytes) (0, (g.notes bytes).foldl (fun s line => (host.complain line s).2) s')

/-! ## There is one answer -/

section
variable {g : Given} {name : String} {place place' : Place} {r : Reader σ} {s : σ}
variable {result result' : Except String (List UInt8)}

theorem Names.unique (h : Names name place) (h' : Names name place') : place = place' := by
  cases h with
  | hyphen => cases h' with
    | hyphen => rfl
    | path hne => exact absurd rfl hne
  | path hne => cases h' with
    | hyphen => exact absurd rfl hne
    | path _ => rfl

theorem Renders.unique (h : g.Renders r s result) (h' : g.Renders r s result') : result = result' := by
  cases h with
  | whole h => cases h' with
    | whole h' => rw [Except.ok.inj (h.symm.trans h')]
    | tooDeep h' => cases h.symm.trans h'
    | repeatedKey _ h' => cases h.symm.trans h'
  | tooDeep h => cases h' with
    | whole h' => cases h.symm.trans h'
    | tooDeep _ => rfl
    | repeatedKey _ h' => cases h.symm.trans h'
  | repeatedKey _ h => cases h' with
    | whole h' => cases h.symm.trans h'
    | tooDeep h' => cases h.symm.trans h'
    | repeatedKey _ h' =>
      cases h.symm.trans h'
      rfl

theorem TokenComesTo.unique {token : List UInt8} (h : g.TokenComesTo token result)
    (h' : g.TokenComesTo token result') : result = result' := by
  cases h with
  | malformed hd hl => cases h' with
    | malformed hd' hl' =>
      obtain rfl := Except.error.inj (hd.symm.trans hd')
      cases hl <;> cases hl' <;> rfl
    | decoded hd' _ => cases hd.symm.trans hd'
  | decoded hd h => cases h' with
    | malformed hd' _ => cases hd.symm.trans hd'
    | decoded hd' h' =>
      obtain rfl := Except.ok.inj (hd.symm.trans hd')
      exact h.unique h'

theorem ClaimsComeTo.unique (h : g.ClaimsComeTo result) (h' : g.ClaimsComeTo result') : result = result' := by
  cases h with
  | noClaim hp => cases h' with
    | noClaim hp' =>
      cases hp.symm.trans hp'
      rfl
    | noHex hp' => cases hp.symm.trans hp'
    | parsed hp' _ => cases hp.symm.trans hp'
  | noHex hp => cases h' with
    | noClaim hp' => cases hp.symm.trans hp'
    | noHex hp' =>
      cases hp.symm.trans hp'
      rfl
    | parsed hp' _ => cases hp.symm.trans hp'
  | parsed hp h => cases h' with
    | noClaim hp' => cases hp.symm.trans hp'
    | noHex hp' => cases hp.symm.trans hp'
    | parsed hp' h' =>
      obtain rfl := Except.ok.inj (hp.symm.trans hp')
      exact h.unique h'

/-- What the steps say leaves no choice. -/
theorem Prepares.unique {host : Host (StateM ς)} {s s' s'' : ς} (h : g.Prepares host s result s')
    (h' : g.Prepares host s result' s'') : result = result' ∧ s' = s'' := by
  have hread {name name' : String} {place place' : Place} (hi : g.input = some name) (hp : Names name place)
      (hi' : g.input = some name') (hp' : Names name' place') : place = place' := by
    obtain rfl := Option.some.inj (hi.symm.trans hi')
    exact hp.unique hp'
  cases h with
  | unread hi hp hr => cases h' with
    | unread hi' hp' hr' =>
      obtain rfl := hread hi hp hi' hp'
      cases hr.symm.trans hr'
      exact ⟨rfl, rfl⟩
    | token hi' hp' hr' _ =>
      obtain rfl := hread hi hp hi' hp'
      cases hr.symm.trans hr'
    | claims hi' _ => cases hi.symm.trans hi'
  | token hi hp hr h => cases h' with
    | unread hi' hp' hr' =>
      obtain rfl := hread hi hp hi' hp'
      cases hr.symm.trans hr'
    | token hi' hp' hr' h' =>
      obtain rfl := hread hi hp hi' hp'
      cases hr.symm.trans hr'
      exact ⟨h.unique h', rfl⟩
    | claims hi' _ => cases hi.symm.trans hi'
  | claims hi h => cases h' with
    | unread hi' _ _ => cases hi.symm.trans hi'
    | token hi' _ _ _ => cases hi.symm.trans hi'
    | claims hi' h' => exact ⟨h.unique h', rfl⟩

end

/-! ## Options as they are taken -/

theorem names_ofName (name : String) : Names name (.ofName name) := by
  unfold Place.ofName
  split
  · rw [‹name = "-"›]
    exact .hyphen
  · exact .path ‹_›

/-- Options that are taken, field by field. -/
structure Taken (g : Given) (o : Options) : Prop where
  source : (∃ name, g.input = some name ∧ o.source = .token (.ofName name)) ∨
    g.input = none ∧ o.source = .claims g.claims
  destination : g.To o.destination
  format : o.format = g.format.getD .json
  maxDepth : o.maxDepth = g.limit
  pretty : o.pretty = g.pretty
  verbose : o.verbose = g.verbose

theorem taken {g : Given} {o : Options} (h : g.options = .ok o) : g.Taken o := by
  have hto : g.To ((g.output.map Place.ofName).getD .standard) := by
    cases ho : g.output with
    | none => exact .unnamed ho
    | some name => exact .named ho (names_ofName name)
  unfold options at h
  by_cases hawaiting : g.awaiting.isSome = true
  · rw [if_pos hawaiting] at h
    split at h <;> cases h
  · rw [if_neg hawaiting] at h
    split at h
    · rename_i name hi hc
      cases h
      exact ⟨.inl ⟨name, hi, rfl⟩, hto, rfl, rfl, rfl, rfl⟩
    · rename_i hi hc
      cases h
      exact ⟨.inr ⟨hi, rfl⟩, hto, rfl, rfl, rfl, rfl⟩
    · cases h

/-! ## What is rendered -/

section
variable {g : Given} {o : Options} {r : Reader σ} {m : ClaimSet} {s s' : σ}

theorem Taken.encode (h : g.Taken o) (r : Reader σ) (s : σ) :
    o.encode r s = ((g.rendering r s).map (· ++ g.ending)).mapError .transcoding := by
  unfold Options.encode rendering ending
  rw [h.format, h.maxDepth, h.pretty]
  have hjson (l : Json.Layout) : Except.mapError Failure.transcoding (do
      let text ← Json.render l g.limit r s
      return text ++ [0x0a]) =
        ((Json.render l g.limit r s).map (· ++ [0x0a])).mapError .transcoding := by
    cases Json.render l g.limit r s <;> rfl
  cases g.format with
  | none => exact hjson _
  | some format => cases format with
    | json => exact hjson _
    | binary =>
      show (Binary.render g.limit r s).mapError Failure.transcoding = _
      cases Binary.render g.limit r s with
      | ok bytes => exact congrArg Except.ok (List.append_nil bytes).symm
      | error e => rfl

/-- All that a rendering can report of a claim set in which every location is under its label. -/
theorem rendering_error (hm : r.Serves m s s') (hx : m.extent ≤ r.extent s) (hp : m.Placed)
    (hw : m.depth ≤ g.limit → ∃ bytes, Binary.render g.limit r s = .ok bytes) {e : Error}
    (h : g.rendering r s = .error e) :
    e = .tooDeep g.limit ∨ g.format ≠ some .binary ∧ ∃ key, e = .structural (.repeatedKey key) := by
  have hjson (l : Json.Layout) (h : Json.render l g.limit r s = .error e) :
      e = .tooDeep g.limit ∨ ∃ key, e = .structural (.repeatedKey key) := by
    have hrender := (Json.TextWriter.renderer_follows l).render rfl hm hx g.limit
    rw [Json.render, hrender] at h
    cases hfault : m.items.findSome? (Json.TextWriter.reasons.fault g.limit) with
    | none =>
      rw [hfault] at h
      cases h
    | some e' =>
      rw [hfault] at h
      cases h
      obtain ⟨item, -, hitem⟩ := List.exists_of_findSome?_eq_some hfault
      exact Json.TextWriter.error_of_fault hitem
  unfold rendering at h
  split at h
  · by_cases hd : m.depth ≤ g.limit
    · obtain ⟨bytes, hbytes⟩ := hw hd
      rw [hbytes] at h
      cases h
    · rw [Binary.render_too_deep hm hx hp (Nat.lt_of_not_le hd)] at h
      cases h
      exact .inl rfl
  · exact (hjson _ h).imp_right fun hkey => ⟨‹_›, hkey⟩

/-- How a failure is told. -/
def told {α : Type} : Except Failure α → Except String α := Except.mapError fun failure => "error: " ++ failure.message

theorem Taken.renders (h : g.Taken o) (hm : r.Serves m s s') (hx : m.extent ≤ r.extent s) (hp : m.Placed)
    (hw : m.depth ≤ g.limit → ∃ bytes, Binary.render g.limit r s = .ok bytes) :
    g.Renders r s (told (o.encode r s)) := by
  rw [h.encode]
  cases hr : g.rendering r s with
  | ok bytes => exact .whole hr
  | error e =>
    obtain rfl | ⟨hf, key, rfl⟩ := rendering_error hm hx hp hw hr
    · exact .tooDeep hr
    · exact .repeatedKey hf hr

theorem Taken.token_comes_to (h : g.Taken o) (token : List UInt8) :
    g.TokenComesTo token (told (o.encodeToken token)) := by
  unfold Options.encodeToken
  cases hd : Binary.open? token with
  | error refusal =>
    have hline : ∃ line, Line refusal line ∧ refusal.toError.message = line := by
      cases refusal <;> exact ⟨_, by constructor, rfl⟩
    obtain ⟨line, hline, hmessage⟩ := hline
    show g.TokenComesTo token (.error ("error: " ++ refusal.toError.message))
    rw [hmessage]
    exact .malformed hd hline
  | ok cursor =>
    obtain ⟨m, -, hm⟩ := Binary.bind_eq_ok.mp hd
    obtain rfl : { root := m } = cursor := Except.ok.inj hm
    obtain ⟨derivation⟩ := Binary.open?_eq_ok.mp hd
    exact .decoded hd (h.renders (Binary.serves_start m) (Nat.le_refl _) derivation.placed fun hl =>
      ⟨_, Binary.render_cursor ⟨hl, derivation.placed⟩⟩)

theorem Taken.claims_come_to (h : g.Taken o) : g.ClaimsComeTo (told (o.encodeClaims g.claims)) := by
  unfold Options.encodeClaims
  cases hp : Arguments.parse g.claims with
  | error e => cases e with
    | invalidClaim argument => exact .noClaim hp
    | invalidHex argument => exact .noHex hp
  | ok claims =>
    obtain ⟨cs, rfl, hcs⟩ := Arguments.parse_placed hp
    exact .parsed hp (h.renders (Arguments.serves cs) (Nat.le_refl _) ⟨hcs, trivial⟩ fun _ =>
      ⟨_, Binary.render_arguments hcs _⟩)

end

end Given

/-! ## The course of a run -/

theorem bind_at {α β : Type} {x : StateM ς α} {f : α → StateM ς β} {a : α} {s s' : ς} (h : x s = (a, s')) :
    (x >>= f) s = f a s' := by
  show f (x s).1 (x s).2 = _
  rw [h]

section
variable {g : Given} {o : Options}

theorem prepares_output (h : g.Taken o) (host : Host (StateM ς)) (s : ς) :
    g.Prepares host s (Given.told (output host o s).1) (output host o s).2 := by
  obtain ⟨name, hi, hs⟩ | ⟨hi, hs⟩ := h.source
  · rcases hr : host.read (.ofName name) s with ⟨report | token, s'⟩
    · have houtput : output host o s = (.error (.system report), s') := by
        unfold output
        rw [hs]
        exact bind_at hr
      rw [houtput]
      exact .unread hi (Given.names_ofName name) hr
    · have houtput : output host o s = (o.encodeToken token, s') := by
        unfold output
        rw [hs]
        exact bind_at hr
      rw [houtput]
      exact .token hi (Given.names_ofName name) hr (h.token_comes_to token)
  · have houtput : output host o s = (o.encodeClaims g.claims, s) := by
      unfold output
      rw [hs]
      rfl
    rw [houtput]
    exact .claims hi h.claims_come_to

theorem report_notes (h : g.Taken o) (host : Host (StateM ς)) (bytes : List UInt8) (s : ς) :
    (report host o bytes s).2 = (g.notes bytes).foldl (fun s line => (host.complain line s).2) s := by
  unfold report Given.notes
  rw [h.verbose]
  split <;> rfl

theorem concludes_run (h : g.Taken o) {args : List String} (ho : Options.parse args = .ok o)
    (host : Host (StateM ς)) (s : ς) :
    g.Concludes host (output host o s).2 (Given.told (output host o s).1) (run host args s) := by
  rcases hp : output host o s with ⟨failure | bytes, s'⟩
  · have hrun : run host args s = fail host failure s' := by
      unfold run
      rw [ho]
      exact bind_at hp
    rw [hrun]
    exact .failed
  · rcases hw : host.write o.destination bytes s' with ⟨refusal | ⟨⟩, s''⟩
    · have hrun : run host args s = fail host (.system refusal) s'' := by
        unfold run
        rw [ho]
        exact (bind_at hp).trans (bind_at hw)
      rw [hrun]
      exact .unwritten h.destination hw
    · have hrun : run host args s = (report host o bytes >>= fun _ => pure 0) s'' := by
        unfold run
        rw [ho]
        exact (bind_at hp).trans (bind_at hw)
      have hnotes := report_notes h host bytes s''
      rw [hrun]
      show g.Concludes host s' (.ok bytes) (0, (report host o bytes s'').2)
      rw [hnotes]
      exact .written h.destination hw

end

/-! ## On a directory -/

namespace Given

/-- What a run leaves of a directory that has been read from, and its exit code. -/
inductive Settles (g : Given) (d : Directory) : Except String (List UInt8) → Nat × Directory → Prop
  | failed {line : String} : Settles g d (.error line) (1, { d with errors := d.errors ++ [line] })
  | unwritten {path : String} {bytes : List UInt8} {refusal : String} (ho : g.output = some path) (hp : path ≠ "-")
    (hw : d.write path bytes = .error refusal) :
    Settles g d (.ok bytes) (1, { d with errors := d.errors ++ [s!"error: IO error: {refusal}"] })
  | printed {bytes : List UInt8} (ho : g.output = none ∨ g.output = some "-") :
    Settles g d (.ok bytes) (0, { d with output := d.output ++ bytes, errors := d.errors ++ g.notes bytes })
  | saved {path : String} {bytes : List UInt8} {d' : Directory} (ho : g.output = some path) (hp : path ≠ "-")
    (hs : Directory.Saves { d with errors := d.errors ++ g.notes bytes } path bytes d') :
    Settles g d (.ok bytes) (0, d')

variable {g : Given} {d d' : Directory} {result : Except String (List UInt8)} {out : Nat × Directory}

theorem complain_all (lines : List String) (d : Directory) :
    lines.foldl (fun d line => (Directory.host.complain line d).2) d = { d with errors := d.errors ++ lines } := by
  induction lines generalizing d with
  | nil => rw [List.foldl_nil, List.append_nil]
  | cons line rest ih =>
    rw [List.foldl_cons, ih]
    show { d with errors := d.errors ++ [line] ++ rest } = _
    rw [List.append_assoc, List.singleton_append]

theorem To.cases {place : Place} (h : g.To place) :
    ((g.output = none ∨ g.output = some "-") ∧ place = .standard) ∨
      ∃ path, g.output = some path ∧ path ≠ "-" ∧ place = .file path := by
  cases h with
  | unnamed h => exact .inl ⟨.inl h, rfl⟩
  | named h hp => cases hp with
    | hyphen => exact .inl ⟨.inr h, rfl⟩
    | path hne => exact .inr ⟨_, h, hne, rfl⟩

theorem Concludes.settles (h : g.Concludes Directory.host d result out) : g.Settles d result out := by
  cases h with
  | failed => exact .failed
  | unwritten hp hw =>
    obtain ⟨-, rfl⟩ | ⟨path, ho, hne, rfl⟩ := hp.cases
    · cases hw
    · cases hwrite : d.write path _ with
      | ok d'' =>
        rw [Directory.write_file_ok hwrite] at hw
        cases hw
      | error refusal =>
        rw [Directory.write_file_error hwrite] at hw
        cases hw
        exact .unwritten ho hne hwrite
  | written hp hw =>
    rw [complain_all]
    obtain ⟨ho, rfl⟩ | ⟨path, ho, hne, rfl⟩ := hp.cases
    · cases hw
      exact .printed ho
    · cases hwrite : d.write path _ with
      | error refusal =>
        rw [Directory.write_file_error hwrite] at hw
        cases hw
      | ok d'' =>
        rw [Directory.write_file_ok hwrite] at hw
        cases hw
        rw [(Directory.saves_of_write hwrite).errors]
        exact .saved ho hne (Directory.saves_telling hwrite _)

theorem Prepares.frame (h : g.Prepares Directory.host d result d') : ∃ input, d' = { d with input } := by
  have hread : ∀ {place : Place} {answer : Except String (List UInt8)} {d' : Directory},
      Directory.host.read place d = (answer, d') → ∃ input, d' = { d with input } := by
    intro place answer d' hr
    obtain ⟨input, hinput⟩ := Directory.read_frame place d
    exact ⟨input, by rw [← hinput, hr]⟩
  cases h with
  | unread _ _ hr => exact hread hr
  | token _ _ hr _ => exact hread hr
  | claims _ _ => exact ⟨d.input, rfl⟩

/-- A run whose first steps are known and leave the standard input as it was. -/
theorem Prepares.settles (hp : g.Prepares Directory.host d result d)
    (h : ∃ result input, g.Prepares Directory.host d result { d with input } ∧ g.Settles { d with input } result out) :
    g.Settles d result out := by
  obtain ⟨result', input, hp', hs⟩ := h
  obtain ⟨rfl, hd⟩ := hp.unique hp'
  rw [hd]
  exact hs

theorem Settles.of_error {line : String} (h : g.Settles d (.error line) out) :
    out = (1, { d with errors := d.errors ++ [line] }) := by
  cases h
  rfl

theorem Settles.of_standard {bytes : List UInt8} (h : g.Settles d (.ok bytes) out)
    (ho : g.output = none ∨ g.output = some "-") :
    out = (0, { d with output := d.output ++ bytes, errors := d.errors ++ g.notes bytes }) := by
  cases h with
  | printed _ => rfl
  | unwritten ho' hp _ => exact absurd ho (by simpa [ho'] using hp)
  | saved ho' hp _ => exact absurd ho (by simpa [ho'] using hp)

theorem Settles.of_file {path : String} {bytes : List UInt8} {area : Area} {name : String}
    (h : g.Settles d (.ok bytes) out)
    (ho : g.output = some path) (hne : path ≠ "-") (ht : d.target path = .ok (.entry area name false))
    (hn : ¬Directory.nameLimit < name.utf8ByteSize) :
    ∃ d', out = (0, d') ∧ Directory.Saves { d with errors := d.errors ++ g.notes bytes } path bytes d' := by
  have hwrite : d.write path bytes = .ok (d.put area name bytes) :=
    Directory.write_eq_ok.mpr ⟨area, name, ht, hn, rfl⟩
  cases h with
  | printed h =>
    obtain h | h := h
    · cases ho.symm.trans h
    · exact absurd (Option.some.inj (ho.symm.trans h)) hne
  | unwritten h _ hw =>
    obtain rfl := Option.some.inj (ho.symm.trans h)
    cases hwrite.symm.trans hw
  | saved h _ hs =>
    obtain rfl := Option.some.inj (ho.symm.trans h)
    exact ⟨_, rfl, hs⟩

end Given

/-! ## All or nothing -/

/-- On any host, what is read, decoded and rendered is written whole, and once, or else not at all. So a directory is
left with all of the output, in its one place, or as it was; a token may well be read from the file that is written. -/
theorem run_all_or_nothing {g : Given} {o : Options} {args : List String}
    (hg : args.foldlM Given.argument {} = .ok g) (ho : g.options = .ok o) :
    (∀ (ς : Type) (host : Host (StateM ς)) (s : ς), ∃ result s',
      g.Prepares host s result s' ∧ g.Concludes host s' result (run host args s)) ∧
    ∀ d : Directory, ∃ result input,
      g.Prepares Directory.host d result { d with input } ∧
      g.Settles { d with input } result (run Directory.host args d) := by
  have hparse : Options.parse args = .ok o := by
    unfold Options.parse
    rw [hg]
    exact ho
  have htaken := Given.taken ho
  have hrun : ∀ (ς : Type) (host : Host (StateM ς)) (s : ς), ∃ result s',
      g.Prepares host s result s' ∧ g.Concludes host s' result (run host args s) := by
    intro ς host s
    exact ⟨_, _, prepares_output htaken host s, concludes_run htaken hparse host s⟩
  refine ⟨hrun, fun d => ?_⟩
  obtain ⟨result, d', hp, hc⟩ := hrun Directory Directory.host d
  obtain ⟨input, rfl⟩ := hp.frame
  exact ⟨result, input, hp, hc.settles⟩

/-- A token with one submodule. -/
def nestedToken : List UInt8 := [0x30, 0x09, 0xa1, 0x07, 0xa2, 0x05, 0x0c, 0x01, 0x6d, 0x30, 0x00]

def nested : ClaimSet where
  claims := []
  entries := [.submodule "m" [] []]

theorem open_nestedToken : Binary.open? nestedToken = .ok { root := nested } := by
  have hencode : (Binary.tokenNode nested).encode = nestedToken := by decide +kernel
  rw [← hencode]
  exact Binary.open?_encode (by decide) (by decide +kernel)

def nestedFile : Directory where
  files := [("t", nestedToken)]

theorem target_nestedFile : nestedFile.target "t" = .ok (.entry .current "t" false) := by
  have hsplit : "t".splitOn "/" = ["t"] := by
    rw [String.splitOn, if_neg (by decide), String.splitOnAux, String.splitOnAux]
    decide +kernel
  rw [Directory.target, hsplit]
  exact ok_of_toOption (by decide +kernel)

/-- The file is kept at the limit of 0, and holds its own text after a run at the default limit. Its token goes to the
standard output as it was, and so does what claims come to; a repeated label and an empty token are told of. -/
theorem run_all_or_nothing_same_file :
    run Directory.host ["--in", "t", "--out", "t", "--max-depth", "0"] nestedFile =
      (1, { nestedFile with errors := ["error: submodule nesting exceeds the limit of 0"] }) ∧
    (∃ d, run Directory.host ["--in", "t", "--out", "t"] nestedFile = (0, d) ∧
      d.read "t" = .ok (Text.utf8 "\x7b\"submods\":\x7b\"m\":\x7b\x7d\x7d\x7d\n") ∧ d.output = [] ∧ d.errors = []) ∧
    run Directory.host ["--in", "t", "--out", "-", "-f", "tlv"] nestedFile =
      (0, { nestedFile with output := nestedToken }) ∧
    run Directory.host ["-c", "1:null"] nestedFile =
      (0, { nestedFile with output := Text.utf8 "\x7b\"1\":null\x7d\n" }) ∧
    run Directory.host ["-c", "1:null", "-c", "1:null", "--out", "t"] nestedFile =
      (1, { nestedFile with errors := ["error: structure: key \"1\" repeated within one JSON object"] }) ∧
    run Directory.host ["--in", "-", "--out", "t"] nestedFile =
      (1, { nestedFile with errors := ["error: decoder: empty input"] }) := by
  have hfile : Directory.host.read (.file "t") nestedFile = (.ok nestedToken, nestedFile) := by
    have hread : nestedFile.read "t" = .ok nestedToken :=
      Directory.read_entry target_nestedFile (by decide) rfl
    show (nestedFile.read "t", nestedFile) = _
    rw [hread]
  have ht : Given.Names "t" (.file "t") := .path (by decide)
  have hrun {g : Given} {result : Except String (List UInt8)} (hi : g.input = some "t")
      (h : g.Renders Cursor.reader { root := nested } result) :
      g.Prepares Directory.host nestedFile result nestedFile :=
    .token hi ht hfile (.decoded open_nestedToken h)
  refine ⟨?_, ?_, ?_, ?_, ?_, ?_⟩
  · have hg : ["--in", "t", "--out", "t", "--max-depth", "0"].foldlM Given.argument {} =
        .ok { input := some "t", output := some "t", maxDepth := some 0 } := ok_of_toOption (by decide +kernel)
    have hdeep : Given.rendering { input := some "t", output := some "t", maxDepth := some 0 } Cursor.reader
        { root := nested } = .error (.tooDeep 0) := error_of_match (by decide +kernel)
    have hp := hrun rfl (.tooDeep hdeep)
    exact (hp.settles ((run_all_or_nothing hg rfl).2 nestedFile)).of_error
  · have hg : ["--in", "t", "--out", "t"].foldlM Given.argument {} =
        .ok { input := some "t", output := some "t" } := ok_of_toOption (by decide +kernel)
    have htext : Given.rendering { input := some "t", output := some "t" } Cursor.reader { root := nested } =
        .ok (Text.utf8 "\x7b\"submods\":\x7b\"m\":\x7b\x7d\x7d\x7d") := ok_of_toOption (by decide +kernel)
    have hp := hrun rfl (.whole htext)
    obtain ⟨d, hout, hs⟩ := (hp.settles ((run_all_or_nothing hg rfl).2 nestedFile)).of_file
      rfl (by decide) target_nestedFile (by decide)
    exact ⟨d, hout, hs.readBack, hs.output, hs.errors⟩
  · have hg : ["--in", "t", "--out", "-", "-f", "tlv"].foldlM Given.argument {} =
        .ok { input := some "t", output := some "-", format := some .binary } := ok_of_toOption (by decide +kernel)
    have hsame : Given.rendering { input := some "t", output := some "-", format := some .binary } Cursor.reader
        { root := nested } = .ok nestedToken := ok_of_toOption (by decide +kernel)
    have hp := hrun rfl (.whole hsame)
    exact (hp.settles ((run_all_or_nothing hg rfl).2 nestedFile)).of_standard (.inr rfl)
  · have hg : ["-c", "1:null"].foldlM Given.argument {} = .ok { claims := ["1:null"] } :=
      ok_of_toOption (by decide +kernel)
    have hparse : Arguments.parse ["1:null"] = .ok { claims := [⟨1, .null⟩] } := rfl
    have htext : Given.rendering { claims := ["1:null"] } Arguments.reader { claims := [⟨1, .null⟩] } =
        .ok (Text.utf8 "\x7b\"1\":null\x7d") := ok_of_toOption (by decide +kernel)
    have hp : Given.Prepares { claims := ["1:null"] } Directory.host nestedFile _ nestedFile :=
      .claims rfl (.parsed hparse (.whole htext))
    exact (hp.settles ((run_all_or_nothing hg rfl).2 nestedFile)).of_standard (.inl rfl)
  · have hg : ["-c", "1:null", "-c", "1:null", "--out", "t"].foldlM Given.argument {} =
        .ok { claims := ["1:null", "1:null"], output := some "t" } := ok_of_toOption (by decide +kernel)
    have hparse : Arguments.parse ["1:null", "1:null"] = .ok { claims := [⟨1, .null⟩, ⟨1, .null⟩] } := rfl
    have hkey : Given.rendering { claims := ["1:null", "1:null"], output := some "t" } Arguments.reader
        { claims := [⟨1, .null⟩, ⟨1, .null⟩] } = .error (.structural (.repeatedKey "1")) :=
      error_of_match (by decide +kernel)
    have hp : Given.Prepares { claims := ["1:null", "1:null"], output := some "t" } Directory.host nestedFile _
        nestedFile :=
      .claims rfl (.parsed hparse (.repeatedKey (by decide) hkey))
    have hquoted : Text.quoted "1" = "\"1\"" := by decide +kernel
    rw [hquoted] at hp
    exact (hp.settles ((run_all_or_nothing hg rfl).2 nestedFile)).of_error
  · have hg : ["--in", "-", "--out", "t"].foldlM Given.argument {} =
        .ok { input := some "-", output := some "t" } := ok_of_toOption (by decide +kernel)
    have hempty : Binary.open? [] = .error .empty := rfl
    have hp : Given.Prepares { input := some "-", output := some "t" } Directory.host nestedFile _ nestedFile :=
      .token rfl .hyphen rfl (.malformed hempty .empty)
    exact (hp.settles ((run_all_or_nothing hg rfl).2 nestedFile)).of_error

end ClaimRelay.CommandLine
