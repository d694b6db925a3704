import ClaimRelay.Claim
import ClaimRelay.Text.Quoted

/-!
# Errors

What can go wrong between a reader and a writer. The end of a list of claims or entries is no error. Readers and
writers may come from elsewhere, so there are errors here that only those report; what is said of any reader or any
writer is said of them too.
-/

namespace ClaimRelay

/-- A call that does not fit the state of the one it is made on. -/
inductive Misuse
  /-- Bytes are inserted past the end of a buffer. -/
  | insertPastEnd (offset size : Nat)
  /-- A cursor is asked to leave the outermost claim set. -/
  | exitAtTop
  /-- The path of a cursor leads to an entry that is no submodule. -/
  | lostPath (index : Nat)
  | notAToken (index : Nat) (name : String)
  | noEntry (index : Nat)
  | argumentsHaveNoSubmodules
  | argumentsHaveNoToken (index : Nat)
  /-- A reader goes on past the end that it announced. -/
  | overrun
  | claimAfterSection (label : Label)
  | sectionAlreadyStarted
  | noSectionOpen
  | closesOtherDepth (handle depth : Nat)
  | closedWithNamedSectionOpen (name : String)
  | submodulesStillOpen (count : Nat)
  | sectionStillOpen
  /-- A builder is asked for its innermost level when it has none. -/
  | alreadyFinished
  | noRootLevel
  | noOpenSubmodule
  | claimOutsideToken (label : Label)
  | locationUnderLabel (label : Label)
  | sectionStartedTwice
  | noSectionToEnd
  | sectionOutsideToken
  | entryOutsideSection
  | namedEntryOutsideSection (name : String)
  | closingDepth (handle depth : Nat)
  | closedWithSectionOpen
  | submoduleFrameMissing
  | unnestedSection
  | elementsStillOpen
  | objectsStillOpen
  | repeatedKey (key : String)
  /-- A real pass comes back with a buffer that only counted. -/
  | measuringBufferReturned
  /-- Any other, in the words of a reader or writer from elsewhere. -/
  | reported (text : String)
  deriving DecidableEq

def Misuse.message : Misuse → String
  | insertPastEnd offset size => s!"insert at offset {offset} past end of output ({size})"
  | exitAtTop => "exit_submodule called at the top level"
  | lostPath index => s!"cursor path points at a missing submodule {index}"
  | notAToken index name => s!"entry {index} ({name}) is a submodule, not a nested token"
  | noEntry index => s!"no entry at index {index}"
  | argumentsHaveNoSubmodules => "command line claims have no submodules"
  | argumentsHaveNoToken index => s!"command line claims have no nested token at {index}"
  | overrun => "reader goes on past its announced end"
  | claimAfterSection label => s!"claim {label} output after the submodules section"
  | sectionAlreadyStarted => "submodules section already started"
  | noSectionOpen => "no submodules section is open"
  | closesOtherDepth handle depth => s!"close_submodule for depth {handle} but current depth is {depth}"
  | closedWithNamedSectionOpen name => s!"submodule {name} closed with its submodules section open"
  | submodulesStillOpen count => s!"{count} submodule(s) still open"
  | sectionStillOpen => "submodules section still open"
  | alreadyFinished => "encoder already finished"
  | noRootLevel => "no root level"
  | noOpenSubmodule => "no open submodule"
  | claimOutsideToken label => s!"claim {label} outside of a token body"
  | locationUnderLabel label => s!"location value under label {label}, expected label {locationLabel}"
  | sectionStartedTwice => "submodules section started twice or outside of a token"
  | noSectionToEnd => "no submodules section to end"
  | sectionOutsideToken => "submodules section outside of a token"
  | entryOutsideSection => "submodule entry outside of a submodules section"
  | namedEntryOutsideSection name => s!"entry {Text.quoted name} outside of a submodules section"
  | closingDepth handle depth => s!"closing submodule at depth {handle} while at depth {depth}"
  | closedWithSectionOpen => "submodule closed with an open section"
  | submoduleFrameMissing => "submodule frame missing"
  | unnestedSection => "section outside of a token"
  | elementsStillOpen => "token finished with open elements"
  | objectsStillOpen => "token finished with open objects"
  | repeatedKey key => s!"key {Text.quoted key} repeated within one JSON object"
  | measuringBufferReturned => "encoder returned a measuring buffer from a real pass"
  | reported text => text

inductive Capability
  | nestedToken
  /-- A structured value of a kind that a writer from elsewhere does not know. -/
  | structuredValue
  deriving DecidableEq

def Capability.name : Capability → String
  | nestedToken => "nested token output"
  | structuredValue => "structured claim value"

inductive Error
  | structural (misuse : Misuse)
  | unsupported (capability : Capability)
  /-- A reader's format reports that the token is malformed. -/
  | decoding (report : String)
  /-- A writer's format reports that it cannot go on. -/
  | encoding (report : String)
  /-- A reader from elsewhere, of tokens that are signed, reports that one does not verify. -/
  | verification (report : String)
  | tooDeep (limit : Nat)
  | overflow (needed capacity : Nat)
  | sizeMismatch (measured actual : Nat)
  /-- What the code relies on does not hold, and the program stops there. Nobody is told and no call follows. -/
  | halted
  deriving DecidableEq

/-- The coarse class of an error. -/
inductive ErrorKind
  | structural
  | unsupported
  | format
  | verification
  | resourceExhausted
  | internal
  deriving DecidableEq

namespace Error

def kind : Error → ErrorKind
  | structural _ => .structural
  | unsupported _ => .unsupported
  | decoding _ | encoding _ => .format
  | verification _ => .verification
  | tooDeep _ => .resourceExhausted
  | overflow .. | sizeMismatch .. | halted => .internal

def message : Error → String
  | structural misuse => "structure: " ++ misuse.message
  | unsupported capability => capability.name ++ " is not supported by the encoder"
  | decoding report => "decoder: " ++ report
  | encoding report => "encoder: " ++ report
  | verification report => "verification failed: " ++ report
  | tooDeep limit => s!"submodule nesting exceeds the limit of {limit}"
  | overflow needed capacity =>
    s!"output buffer overflow: {needed} bytes needed, {capacity} available"
  | sizeMismatch measured actual =>
    s!"render pass needed {actual} bytes but the measuring pass reported {measured}"
  | halted => "halted"

end Error

end ClaimRelay
