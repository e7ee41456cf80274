/-!
# Errors

An error is one fault, or a batch of independent faults.

* `Cause` says what went wrong.  Its wording is `Cause.message`, and the
  wording that depends on the kind alone is `Cause.summary`.
* Where the parser of timestamps or of UUIDs refuses a text, its reason is part
  of the wording.  `Reason` keeps the text that is refused, and `Wordings` are
  the words for it, which may be any.
* `Fault` is a cause with the place where it arose, if one is known.
* `Error` is a fault or a batch.  A batch holds faults, so a batch inside a
  batch cannot arise.
* `Error.located` gives an error the place at which a reader met it.
* `Batch` collects errors in order, and `Error.accumulate` turns a list of
  errors into at most one.
* `exists_of_bind` and its neighbours go back from a result to those that it
  was made of.
* `assign` is the change of a value in place by a call that may fail.
* `Failure` is for the calls that may not return at all.
-/

namespace Edn

/-- The bounds that a reader keeps. -/
inductive Limit where
  | depth (limit : Nat)
  | length (limit actual : Nat)
deriving DecidableEq, Repr

/-- The wording of an exceeded bound. -/
def Limit.message : Limit → String
  | .depth limit => s!"max nesting depth ({limit}) exceeded"
  | .length limit actual => s!"max input length ({limit} bytes) exceeded: {actual} bytes"

/-- Why a parser that is not part of the notation refuses a text: the one of timestamps, or the one of
UUIDs. -/
inductive Reason where
  | timestamp (text : List Char)
  | uuid (text : List Char)
deriving DecidableEq, Repr

/-- The words in which such parsers give their reasons. -/
abbrev Wordings : Type :=
  Reason → String

/-- What a syntax fault tells: a text, which may end in the reason of another parser. -/
structure Details where
  text : String
  reason : Option Reason
deriving DecidableEq, Repr

instance : Coe String Details :=
  ⟨fun text => ⟨text, none⟩⟩

namespace Details

/-- Details that start with another text. -/
def after (text : String) (d : Details) : Details :=
  ⟨text ++ d.text, d.reason⟩

/-- The wording of details. -/
def message (words : Wordings) (d : Details) : String :=
  match d.reason with
  | some reason => d.text ++ words reason
  | none => d.text

end Details

/-- What went wrong.  A syntax fault knows its line and column, which are zero until it has been
placed in a text, and the source line that it stands on. -/
inductive Cause where
  | invalidInput (details : String)
  | invalidElement (details : String)
  | invalidSymbol (details : String)
  | invalidKeyword (details : String)
  | invalidPair (details : String)
  | duplicateKey (key : String)
  | noValue (key : String)
  | unknownMimeType (details : String)
  | syntaxFault (details : Details) (line column : Nat) (sourceLine : String)
  | invalidFactory (details : String)
  | invalidPattern (details : String)
  | limitExceeded (limit : Limit)
deriving DecidableEq, Repr

/-- The wording of a cause. -/
def Cause.message (words : Wordings) : Cause → String
  | .invalidInput details => "invalid input: " ++ details
  | .invalidElement details => "invalid element: " ++ details
  | .invalidSymbol details => "invalid symbol: " ++ details
  | .invalidKeyword details => "invalid keyword: " ++ details
  | .invalidPair details => "invalid pair: " ++ details
  | .duplicateKey key => "duplicate key found: " ++ key
  | .noValue key => "no value found: " ++ key
  | .unknownMimeType details => "unknown serialization mime type: " ++ details
  | .syntaxFault details line column _ =>
    let what := details.message words
    s!"parse error at {line}:{column}: {what}"
  | .invalidFactory details => "invalid factory: " ++ details
  | .invalidPattern details => "invalid pattern: " ++ details
  | .limitExceeded limit => "limit exceeded: " ++ limit.message

/-- The wording that is the same for every cause of one kind. -/
def Cause.summary : Cause → String
  | .invalidInput _ => "Invalid input"
  | .invalidElement _ => "Invalid Element"
  | .invalidSymbol _ => "Invalid Symbol"
  | .invalidKeyword _ => "Invalid keyword"
  | .invalidPair _ => "Invalid pair"
  | .duplicateKey _ => "Duplicate key found"
  | .noValue _ => "No value found"
  | .unknownMimeType _ => "unknown serialization mime type"
  | .syntaxFault .. => "Parser error"
  | .invalidFactory _ => "Invalid factory"
  | .invalidPattern _ => "Invalid pattern"
  | .limitExceeded _ => "Limit exceeded"

/-- A place in a text.  Each part may be unknown. -/
structure Place where
  source : Option String
  line : Option Nat
  column : Option Nat
deriving DecidableEq, Repr

/-- The wording of a place.  A line without a column is not written, nor a column without a line. -/
def Place.message (p : Place) : String :=
  let position := match p.line, p.column with
    | some line, some column => s!"at {line}:{column}"
    | _, _ => ""
  match p.source with
  | some source => position ++ " in `" ++ source ++ "`"
  | none => position

/-- One fault. -/
structure Fault where
  cause : Cause
  place : Option Place
deriving DecidableEq, Repr

/-- The wording of a fault is that of its cause; the place is kept apart. -/
def Fault.message (words : Wordings) (f : Fault) : String :=
  f.cause.message words

/-- A fault, or a batch of independent faults with a place of its own.  What a batch holds is private
to it, and it takes in another batch fault by fault: it holds no batches, and so the type has none. -/
inductive Error where
  | one (fault : Fault)
  | many (faults : List Fault) (place : Option Place)
deriving DecidableEq, Repr

namespace Error

/-- The error of a cause that has no place. -/
def ofCause (cause : Cause) : Error :=
  .one ⟨cause, none⟩

/-- A native value does not have the shape that is expected of it. -/
def invalidInput (details : String) : Error :=
  ofCause (.invalidInput details)

/-- A value has no element, or a collection cannot hold it. -/
def invalidElement (details : String) : Error :=
  ofCause (.invalidElement details)

/-- A text breaks the grammar of symbols. -/
def invalidSymbol (details : String) : Error :=
  ofCause (.invalidSymbol details)

/-- A key or a value of a pair is missing. -/
def invalidPair (details : String) : Error :=
  ofCause (.invalidPair details)

/-- A map or a set already holds the key. -/
def duplicateKey (key : String) : Error :=
  ofCause (.duplicateKey key)

/-- A collection holds nothing under the key. -/
def noValue (key : String) : Error :=
  ofCause (.noValue key)

/-- No serializer knows the format, or no element stands for the native value. -/
def unknownMimeType (details : String) : Error :=
  ofCause (.unknownMimeType details)

/-- A factory is registered twice. -/
def invalidFactory (details : String) : Error :=
  ofCause (.invalidFactory details)

/-- A rule of a grammar is ill-formed. -/
def invalidPattern (details : String) : Error :=
  ofCause (.invalidPattern details)

/-- A text cannot be read; its place is not known yet. -/
def unread (details : Details) : Error :=
  ofCause (.syntaxFault details 0 0 "")

/-- A text cannot be read, for a reason of the notation. -/
def unplaced (details : String) : Error :=
  unread details

/-- A reader's bound is exceeded. -/
def limitExceeded (limit : Limit) : Error :=
  ofCause (.limitExceeded limit)

/-- The lines of a batch: each fault after its number. -/
def numbered (words : Wordings) (faults : List Fault) : String :=
  String.join (faults.mapIdx fun index fault => s!"{index}: " ++ fault.message words ++ "\n")

/-- The wording of an error. -/
def message (words : Wordings) : Error → String
  | .one fault => fault.message words
  | .many faults _ => numbered words faults

/-- The wording that is the same for every error of one kind. -/
def summary : Error → String
  | .one fault => fault.cause.summary
  | .many .. => "Multiple errors"

/-- The place of an error. -/
def place? : Error → Option Place
  | .one fault => fault.place
  | .many _ place => place

/-- The error with its place replaced. -/
def withPlace (place : Place) : Error → Error
  | .one fault => .one { fault with place := some place }
  | .many faults _ => .many faults (some place)

/-- Tells whether two errors are of one kind, whatever their details. -/
def sameKind : Error → Error → Bool
  | .one a, .one b => a.cause.summary == b.cause.summary
  | .many .., .many .. => true
  | _, _ => false

/-- Gives an error the place at which a reader met it.  A syntax fault without a line takes the
place into its cause, and nothing else is left of it but its details.  Every other error keeps the
place that it has, and takes this one if it has none. -/
def located (line column : Nat) (sourceLine : String) : Error → Error
  | .one ⟨.syntaxFault details 0 _ _, _⟩ => ofCause (.syntaxFault details line column sourceLine)
  | .one ⟨cause, place⟩ => .one ⟨cause, some (place.getD ⟨some sourceLine, some line, some column⟩)⟩
  | .many faults place => .many faults (some (place.getD ⟨some sourceLine, some line, some column⟩))

/-- The faults of an error: itself, or those of a batch.  The place of a batch is not kept. -/
def faults : Error → List Fault
  | .one fault => [fault]
  | .many faults _ => faults

end Error

/-- Faults that are collected in order.  An error that is a batch itself is never kept as one. -/
structure Batch where
  faults : List Fault
deriving DecidableEq, Repr

namespace Batch

/-- The batch without a fault. -/
def empty : Batch :=
  ⟨[]⟩

/-- Adds the faults of an error at the end, so that batches never nest. -/
def append (batch : Batch) (error : Error) : Batch :=
  ⟨batch.faults ++ error.faults⟩

/-- The batch as an error: none if it is empty, and a lone fault as itself. -/
def toError? (batch : Batch) : Option Error :=
  match batch.faults with
  | [] => none
  | [fault] => some (.one fault)
  | faults => some (.many faults none)

end Batch

/-- Turns independent errors into at most one. -/
def Error.accumulate (errors : List Error) : Option Error :=
  (errors.foldl Batch.append Batch.empty).toError?

/-! ## Results in a row -/

/-- A result that was made from another one comes from a value of it. -/
theorem exists_of_bind {ε α β : Type} {x : Except ε α} {f : α → Except ε β} {result : β}
    (h : (x >>= f) = .ok result) : ∃ value, x = .ok value ∧ f value = .ok result := by
  cases x with
  | error error => cases h
  | ok value => exact ⟨value, rfl, h⟩

/-- So does a result that was mapped. -/
theorem exists_of_map {ε α β : Type} {x : Except ε α} {f : α → β} {result : β}
    (h : x.map f = .ok result) : ∃ value, x = .ok value ∧ f value = result := by
  cases x with
  | error error => cases h
  | ok value =>
    cases h
    exact ⟨value, rfl, rfl⟩

/-- A result keeps its value when errors are mapped. -/
theorem eq_ok_of_mapError {ε ε' α : Type} {x : Except ε α} {f : ε → ε'} {value : α}
    (h : x.mapError f = .ok value) : x = .ok value := by
  cases x with
  | error error => cases h
  | ok found =>
    cases h
    rfl

/-! ## Changes in place -/

/-- What a change in place leaves behind, and its result.  A change that fails leaves the old value. -/
def assign {α : Type} (old : α) : Except Error α → α × Except Error Unit
  | .ok new => (new, .ok ())
  | .error error => (old, .error error)

section Assign

variable {α : Type} {p : α → Prop} {old new : α} {error : Error} {changed : Except Error α}

@[simp] theorem assign_ok : assign old (.ok new) = (new, .ok ()) := rfl

@[simp] theorem assign_error : assign old (.error error) = (old, .error error) := rfl

/-- What holds of the old value, and of the new one if there is one, holds of what is left behind. -/
theorem assign_fst_of (hold : p old) (hnew : ∀ new, changed = .ok new → p new) :
    p (assign old changed).1 := by
  cases changed with
  | error error => exact hold
  | ok new => exact hnew new rfl

end Assign

/-! ## Calls that may not return -/

/-- Why a call gives no value: it returns an error, or the program stops in it. -/
inductive Failure where
  | error (error : Error)
  | stop
deriving DecidableEq, Repr

end Edn
