import Mathlib.Data.Nat.Digits.Defs
import Mathlib.Data.String.Basic
import KalamDB.Commons.Table

/-!
# Errors and row versions of the Raft layer

The error type of the Raft layer with the texts it renders, the coded errors that keep their
code and arguments, and the packing of a **log index and an ordinal** into a row version.
Error texts matter here: a data response stores them in a field of bounded length.
-/

namespace KalamDB.Raft

/-! ### Coded errors -/

inductive ErrorCode where
  | notNullViolation
  | missingColumn
  | commitFailed
  | detail
  deriving DecidableEq

def ErrorCode.asStr : ErrorCode → String
  | .notNullViolation => "NOT_NULL_VIOLATION"
  | .missingColumn => "MISSING_COLUMN"
  | .commitFailed => "COMMIT_FAILED"
  | .detail => "DETAIL"

def ErrorCode.template : ErrorCode → String
  | .notNullViolation => "column '%s' cannot be NULL (row %d)"
  | .missingColumn => "column '%s' is missing in row %d"
  | .commitFailed => "while committing transaction '%s'"
  | .detail => "%s"

inductive ErrorArg where
  | text (value : String)
  | int (value : Int64)
  deriving DecidableEq

/-- One frame of a coded error. -/
structure CodedFrame where
  code : ErrorCode
  args : List ErrorArg
  verbatim : Bool
  deriving DecidableEq

/-- An error and the later frames pushed on it, the last frame first. -/
structure CodedError where
  frame : CodedFrame
  source : List CodedFrame
  deriving DecidableEq

namespace CodedError

def RAFT_PREFIX : String := "kdb.err/1\n"

def writeField (kind : String) (text : String) : String :=
  kind ++ "\n" ++ toString text.utf8ByteSize ++ "\n" ++ text ++ "\n"

def encodeArg : ErrorArg → String
  | .text value => writeField "s" value
  | .int value => writeField "i" (toString value.toInt)

def encodeFrame (frame : CodedFrame) : String :=
  frame.code.asStr ++ "\n" ++ toString frame.args.length ++ "\n" ++
    (if frame.verbatim then "1" else "0") ++ "\n" ++ String.join (frame.args.map encodeArg)

/-- The form stored in a Raft response: the cause first, then each later frame. -/
def encode (error : CodedError) : String :=
  RAFT_PREFIX ++ String.join ((error.frame :: error.source).reverse.map encodeFrame)

/-- The arguments in the places of a template; `none` when they do not fit it. -/
def renderTemplate : List Char → List ErrorArg → Option String
  | [], [] => some ""
  | [], _ :: _ => none
  | ['%'], _ => some "%"
  | '%' :: '%' :: rest, args => (renderTemplate rest args).map ("%" ++ ·)
  | '%' :: 's' :: rest, .text value :: args => (renderTemplate rest args).map (value ++ ·)
  | '%' :: 'd' :: rest, .int value :: args =>
    (renderTemplate rest args).map (toString value.toInt ++ ·)
  | '%' :: 's' :: _, _ | '%' :: 'd' :: _, _ => none
  | c :: rest, args => (renderTemplate rest args).map (c.toString ++ ·)

def argText : ErrorArg → String
  | .text value => value
  | .int value => toString value.toInt

def writeOwn (frame : CodedFrame) : Option String :=
  if frame.verbatim then some ((frame.args.head?.map argText).getD "")
  else renderTemplate frame.code.template.toList frame.args

def fallbackMessage (frames : List CodedFrame) : String :=
  " ".intercalate (frames.map fun frame =>
    frame.code.asStr ++ String.join (frame.args.map fun arg => " " ++ argText arg))

/-- The message of an error: the cause, then each later frame. -/
def rendered (error : CodedError) : String :=
  let frames := (error.frame :: error.source).reverse
  match frames.mapM writeOwn with
  | some texts => " ".intercalate texts
  | none => fallbackMessage frames

end CodedError

/-! ### Raft errors -/

inductive RaftError where
  | notLeader (group : String) (leader : Option ℕ)
  | groupNotFound (group : String)
  | invalidGroup (message : String)
  | notStarted (group : String)
  | applyFailed (message : String)
  | serialization (message : String)
  | proposal (message : String)
  | network (message : String)
  | storage (message : String)
  | config (message : String)
  | timeout (elapsed : String)
  | replicationTimeout (group committedLogId detail : String) (timeoutMs : ℕ)
  | shutdown
  | invalidState (message : String)
  | provider (message : String)
  | internal (message : String)
  | coded (error : CodedError)
  deriving DecidableEq

def RaftError.display : RaftError → String
  | .notLeader group leader =>
    "Not leader for group " ++ group ++ ": leader is node " ++
      (match leader with
        | some node => "Some(" ++ toString node ++ ")"
        | none => "None")
  | .groupNotFound group => "Raft group not found: " ++ group
  | .invalidGroup message => "Invalid Raft group: " ++ message
  | .notStarted group => "Raft group not started: " ++ group
  | .applyFailed message => "Failed to apply command: " ++ message
  | .serialization message => "Serialization error: " ++ message
  | .proposal message => "Proposal rejected: " ++ message
  | .network message => "Network error: " ++ message
  | .storage message => "Storage error: " ++ message
  | .config message => "Configuration error: " ++ message
  | .timeout elapsed => "Command timed out after " ++ elapsed
  | .replicationTimeout group committedLogId detail timeoutMs =>
    "Raft progress timeout for group " ++ group ++ ": " ++ detail ++ " (target=" ++
      committedLogId ++ ", timeout=" ++ toString timeoutMs ++ "ms)"
  | .shutdown => "Raft is shutting down"
  | .invalidState message => "Invalid state: " ++ message
  | .provider message => "Provider error: " ++ message
  | .internal message => "Internal error: " ++ message
  | .coded error => error.rendered

/-! ### Row versions of a log entry -/

def ORDINAL_BITS : ℕ := 16

/-- The largest log index whose versions fit a signed `BIGINT`. -/
def MAX_LOG_INDEX : ℕ := (2 ^ 63 - 1) >>> ORDINAL_BITS

def MAX_ORDINAL : ℕ := 2 ^ 16 - 1

def MAX_ROW_SLOTS_PER_ENTRY : ℕ := MAX_ORDINAL + 1

inductive VersionError where
  | logIndexOutOfRange
  | ordinalOutOfRange
  | tooManySlots (slots : UInt64)
  deriving DecidableEq

def VersionError.display : VersionError → String
  | .logIndexOutOfRange => "raft log index is outside the signed range"
  | .ordinalOutOfRange => "ordinal exceeds 65535"
  | .tooManySlots slots => "entry has " ++ toString slots.toNat ++ " row slots; limit is 65536"

theorem utf8ByteSize_repr_le {n e : ℕ} (he : 0 < e) (h : n < 10 ^ e) :
    (toString n).utf8ByteSize ≤ 4 * e := by
  have hchars : ∀ cs : List Char, (String.ofList cs).utf8ByteSize ≤ 4 * cs.length := by
    intro cs
    induction cs with
    | nil => simp
    | cons c cs ih =>
      have hc := Char.utf8Size_le_four c
      rw [String.utf8ByteSize_ofList] at ih ⊢
      simp only [String.utf8Len, List.length_cons]
      omega
  have hdigits := Nat.toDigits_length 10 n e he h
  exact (hchars (Nat.toDigits 10 n)).trans (by omega)

/-- The texts of version errors are short. -/
theorem VersionError.utf8ByteSize_display_le (e : VersionError) : e.display.utf8ByteSize ≤ 200 := by
  cases e with
  | logIndexOutOfRange | ordinalOutOfRange => decide
  | tooManySlots slots =>
    have hslots : slots.toNat < 10 ^ 20 := slots.toNat_lt.trans (by norm_num)
    have hdigits := utf8ByteSize_repr_le (by norm_num) hslots
    have hfront : "entry has ".utf8ByteSize = 10 := rfl
    have hback : " row slots; limit is 65536".utf8ByteSize = 26 := rfl
    rw [display, String.utf8ByteSize_append, String.utf8ByteSize_append]
    omega

section

variable {logIndex ordinal : ℕ}

/-- The ordinal fills the bits below the log index. -/
theorem packed_eq (hordinal : ¬MAX_ORDINAL < ordinal) :
    logIndex <<< ORDINAL_BITS ||| ordinal = logIndex * 2 ^ 16 + ordinal := by
  have hord : ordinal < 2 ^ ORDINAL_BITS := by
    have : MAX_ORDINAL + 1 = 2 ^ ORDINAL_BITS := rfl
    omega
  rw [← Nat.shiftLeft_add_eq_or_of_lt hord, Nat.shiftLeft_eq]
  rfl

/-- A log index in range and an ordinal pack into a version. -/
theorem packed_version_bounds (hindex : ¬(logIndex = 0 ∨ MAX_LOG_INDEX < logIndex))
    (hordinal : ¬MAX_ORDINAL < ordinal) :
    0 < (logIndex <<< ORDINAL_BITS ||| ordinal) ∧
      (logIndex <<< ORDINAL_BITS ||| ordinal) < 2 ^ 63 := by
  have hmax : MAX_LOG_INDEX = 2 ^ 47 - 1 := rfl
  have hord : MAX_ORDINAL = 65535 := rfl
  rw [packed_eq hordinal]
  omega

end

/-- The version of one row of a committed entry. -/
def RaftVersionId.tryNew (logIndex ordinal : ℕ) : Except VersionError VersionId :=
  if hindex : logIndex = 0 ∨ MAX_LOG_INDEX < logIndex then .error .logIndexOutOfRange
  else if hordinal : MAX_ORDINAL < ordinal then .error .ordinalOutOfRange
  else .ok ⟨logIndex <<< ORDINAL_BITS ||| ordinal, packed_version_bounds hindex hordinal⟩

theorem RaftVersionId.tryNew_eq_ok_iff {index ordinal : ℕ} {version : VersionId} :
    tryNew index ordinal = .ok version ↔
      (0 < index ∧ index ≤ MAX_LOG_INDEX) ∧ ordinal ≤ MAX_ORDINAL ∧
        version.val = index * 2 ^ 16 + ordinal := by
  unfold tryNew
  split
  · exact iff_of_false nofun (by omega)
  split
  · exact iff_of_false nofun (by omega)
  rename_i hindex hordinal
  rw [Except.ok.injEq, Subtype.ext_iff]
  have hpacked : index <<< ORDINAL_BITS ||| ordinal = index * 2 ^ 16 + ordinal := packed_eq hordinal
  dsimp only
  omega

def checkEntrySlotCount (slots : ℕ) : Except VersionError Unit :=
  if MAX_ROW_SLOTS_PER_ENTRY < slots then .error (.tooManySlots (UInt64.ofNat slots)) else .ok ()

/-- One version per final row slot of an entry, with ordinals `0..slotCount`. -/
def assignEntryVersions (entryLogIndex slotCount : ℕ) : Except VersionError (List VersionId) := do
  checkEntrySlotCount slotCount
  (List.range slotCount).mapM (RaftVersionId.tryNew entryLogIndex)

end KalamDB.Raft
