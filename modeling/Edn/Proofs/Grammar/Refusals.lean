import Edn.Proofs.Reading.Composition

/-!
# Errors without a place

A rule knows the tag and the text that it gets, and no place.  So what it
refuses has no place yet, and the reader gives it one.

* `Error.IsUnplaced` are the errors without a place, and `Error.position?` is
  where an error says that it stands.
* `Error.position?_located`: an error without a place takes the one that it is
  given.  `Error.located_add` says that a place further down makes no other
  difference.
* `FailsWith` holds of results that are no errors but those with a property.
  It is kept by sequencing, and holds of symbols, tags and collections if the
  few errors that these have are of that property.
* `Unplaced` holds of results that are no errors with a place.
  `unplaced_literal` and `unplaced_collection` derive it for the rules of the
  notation.
-/

namespace Edn

/-! ## Places of errors -/

/-- A fault of syntax has no line yet.  No other cause has one. -/
def Cause.IsUnplaced : Cause → Prop
  | .syntaxFault _ line _ _ => line = 0
  | _ => True

/-- The error has no place yet, neither in itself nor beside it. -/
def Error.IsUnplaced : Error → Prop
  | .one fault => fault.cause.IsUnplaced ∧ fault.place = none
  | .many _ place => place = none

/-- The line, the column and the source line of a place, if all three are known. -/
def Place.position? (p : Place) : Option (Nat × Nat × String) :=
  match p.line, p.column, p.source with
  | some line, some column, some sourceLine => some (line, column, sourceLine)
  | _, _, _ => none

/-- The line, the column and the source line of an error.  A fault of syntax has them in itself,
every other error beside it. -/
def Error.position? : Error → Option (Nat × Nat × String)
  | .one ⟨.syntaxFault _ line column sourceLine, _⟩ => some (line, column, sourceLine)
  | error => error.place?.bind Place.position?

/-- The place a number of lines further down. -/
def Place.moveLines (lines : Nat) (p : Place) : Place :=
  { p with line := p.line.map (· + lines) }

/-- The cause a number of lines further down. -/
def Cause.moveLines (lines : Nat) : Cause → Cause
  | .syntaxFault details line column sourceLine =>
    .syntaxFault details (line + lines) column sourceLine
  | cause => cause

/-- The error a number of lines further down.  Nothing else about it changes. -/
def Error.moveLines (lines : Nat) : Error → Error
  | .one fault => .one ⟨fault.cause.moveLines lines, fault.place.map (Place.moveLines lines)⟩
  | .many faults place => .many faults (place.map (Place.moveLines lines))

namespace Error

variable {e : Error} {line column : Nat} {sourceLine : String}

theorem isUnplaced_ofCause {cause : Cause} (h : cause.IsUnplaced) : (ofCause cause).IsUnplaced :=
  ⟨h, rfl⟩

/-- An error without a place takes the one that it is given. -/
theorem position?_located (h : e.IsUnplaced) :
    (e.located line column sourceLine).position? = some (line, column, sourceLine) := by
  cases e with
  | many faults place =>
    obtain rfl : place = none := h
    rfl
  | one fault =>
    obtain ⟨cause, place⟩ := fault
    obtain ⟨hcause, rfl⟩ : cause.IsUnplaced ∧ place = none := h
    cases cause with
    | syntaxFault details before column' sourceLine' =>
      obtain rfl : before = 0 := hcause
      rfl
    | _ => rfl

/-- An error that is placed further down is the same error further down. -/
theorem located_add (h : e.IsUnplaced) (lines : Nat) :
    e.located (line + lines) column sourceLine =
      (e.located line column sourceLine).moveLines lines := by
  cases e with
  | many faults place =>
    obtain rfl : place = none := h
    rfl
  | one fault =>
    obtain ⟨cause, place⟩ := fault
    obtain ⟨hcause, rfl⟩ : cause.IsUnplaced ∧ place = none := h
    cases cause with
    | syntaxFault details before column' sourceLine' =>
      obtain rfl : before = 0 := hcause
      rfl
    | _ => rfl

end Error

/-! ## Results and their errors -/

/-- If the result is an error, the error has a property. -/
def FailsWith {α : Type} (p : Error → Prop) (result : Except Error α) : Prop :=
  ∀ error, result = .error error → p error

section FailsWith

variable {α β : Type} {p : Error → Prop}

theorem failsWith_ok (value : α) : FailsWith p (.ok value : Except Error α) := by
  rintro error ⟨⟩

theorem failsWith_error {error : Error} (h : p error) :
    FailsWith p (.error error : Except Error α) := by
  rintro found ⟨⟩
  exact h

theorem FailsWith.bind {x : Except Error α} {f : α → Except Error β} (hx : FailsWith p x)
    (hf : ∀ value, FailsWith p (f value)) : FailsWith p (x >>= f) := by
  cases x with
  | error error => exact failsWith_error (hx error rfl)
  | ok value => exact hf value

theorem FailsWith.map {x : Except Error α} (f : α → β) (hx : FailsWith p x) :
    FailsWith p (x.map f) := by
  cases x with
  | error error => exact failsWith_error (hx error rfl)
  | ok value => exact failsWith_ok _

theorem failsWith_ofParts {kind : String → Cause} (h : ∀ details, p (.ofCause (kind details)))
    (isKeyword : Bool) (parts : Except String (String × String)) :
    FailsWith p (Symbol.ofParts kind isKeyword parts) := by
  cases parts with
  | error details => exact failsWith_error (h details)
  | ok parts => exact failsWith_ok _

theorem failsWith_readSymbol (h : ∀ details, p (.ofCause (.invalidSymbol details)))
    (text : String) : FailsWith p (Symbol.read text) :=
  failsWith_ofParts h _ _

theorem failsWith_readKeyword (h : ∀ details, p (.ofCause (.invalidKeyword details)))
    (text : String) : FailsWith p (Symbol.readKeyword text) := by
  unfold Symbol.readKeyword
  dsimp only
  split
  · exact failsWith_error (h text)
  · exact failsWith_ofParts h _ _

/-- A tag that is refused is an invalid symbol. -/
theorem failsWith_tagged (h : ∀ details, p (.ofCause (.invalidSymbol details))) (value : Element)
    (tag : String) : FailsWith p (Grammar.tagged value tag) := by
  unfold Grammar.tagged
  split
  · exact failsWith_ok _
  · unfold Element.withTag
    split
    · exact failsWith_ok _
    · exact (failsWith_readSymbol h _).map _

/-- What the rule of a collection refuses is its tag, an odd number of children, or a repeated key. -/
theorem failsWith_collection (htag : ∀ details, p (.ofCause (.invalidSymbol details)))
    (hpair : ∀ details, p (.ofCause (.invalidPair details)))
    (hkey : ∀ key, p (.ofCause (.duplicateKey key))) (kind : CollectionKind) (tag : String)
    (children : List Element) :
    FailsWith p ((Grammar.collectionRule kind).process tag children) := by
  have hbuild : FailsWith p (Grammar.build kind children) := by
    intro error h
    obtain ⟨cause, rfl, ⟨details, rfl⟩ | ⟨key, rfl⟩⟩ := exists_cause_of_build h
    · exact hpair details
    · exact hkey key
  exact hbuild.bind fun value => failsWith_tagged htag value tag

end FailsWith

/-! ## Results without a placed error -/

/-- The result is no error that has a place. -/
def Unplaced {α : Type} (result : Except Error α) : Prop :=
  ∀ error, result = .error error → error.IsUnplaced

section Unplaced

variable {α β : Type}

theorem unplaced_ok (value : α) : Unplaced (.ok value : Except Error α) :=
  failsWith_ok value

theorem unplaced_error {cause : Cause} (h : cause.IsUnplaced) :
    Unplaced (.error (.ofCause cause) : Except Error α) :=
  failsWith_error (Error.isUnplaced_ofCause h)

theorem Unplaced.bind {x : Except Error α} {f : α → Except Error β} (hx : Unplaced x)
    (hf : ∀ value, Unplaced (f value)) : Unplaced (x >>= f) :=
  FailsWith.bind hx hf

theorem Unplaced.map {x : Except Error α} (f : α → β) (hx : Unplaced x) : Unplaced (x.map f) :=
  FailsWith.map f hx

/-- A tag that is refused has no place. -/
theorem unplaced_tagged (value : Element) (tag : String) : Unplaced (Grammar.tagged value tag) :=
  failsWith_tagged (fun _ => Error.isUnplaced_ofCause trivial) value tag

/-! ## Literals -/

theorem unplaced_readInteger (token : String) : Unplaced (Grammar.readInteger token) := by
  unfold Grammar.readInteger
  split
  · exact unplaced_ok _
  · exact unplaced_error rfl

theorem unplaced_readFloat (token : String) : Unplaced (Grammar.readFloat token) := by
  unfold Grammar.readFloat
  split
  · exact unplaced_ok _
  · exact unplaced_error rfl

theorem unplaced_readCharacter (body : List Char) : Unplaced (Grammar.readCharacter body) := by
  unfold Grammar.readCharacter
  split
  · exact unplaced_ok _
  · exact unplaced_error rfl

theorem unplaced_readQuoted (tag token : String) : Unplaced (Grammar.readQuoted tag token) := by
  have htext : ∀ body, Unplaced (Grammar.readText body) := by
    intro body
    unfold Grammar.readText
    split
    · exact unplaced_ok _
    · exact unplaced_error rfl
  have hinstant : ∀ body, Unplaced (Grammar.readInstant body) := by
    intro body
    unfold Grammar.readInstant
    split
    · exact unplaced_ok _
    · exact unplaced_error rfl
  have huuid : ∀ body, Unplaced (Grammar.readUuid body) := by
    intro body
    unfold Grammar.readUuid
    split
    · exact unplaced_ok _
    · exact unplaced_error rfl
  unfold Grammar.readQuoted
  split
  · exact unplaced_error rfl
  · next body _ =>
    split
    · exact (hinstant body).map _
    · split
      · exact (huuid body).map _
      · exact (htext body).bind fun _ => unplaced_tagged _ _

/-- What the rule of a literal refuses has no place. -/
theorem unplaced_literal {rule : LiteralRule} (h : rule ∈ Grammar.literalRules)
    (tag token : String) : Unplaced (rule.process tag token) := by
  rcases Grammar.mem_literalRules_iff.1 h with rfl | rfl | rfl | rfl | rfl | rfl | rfl | rfl | rfl
  · exact unplaced_tagged _ _
  · exact unplaced_tagged _ _
  · exact unplaced_tagged _ _
  · exact (unplaced_readInteger token).bind fun _ => unplaced_tagged _ _
  · exact (unplaced_readFloat token).bind fun _ => unplaced_tagged _ _
  · exact (unplaced_readCharacter _).bind fun _ => unplaced_tagged _ _
  · have hsymbol : Unplaced (Symbol.read token) :=
      failsWith_readSymbol (fun _ => Error.isUnplaced_ofCause trivial) token
    exact (hsymbol.map _).bind fun _ => unplaced_tagged _ _
  · have hkeyword : Unplaced (Symbol.readKeyword token) :=
      failsWith_readKeyword (fun _ => Error.isUnplaced_ofCause trivial) token
    exact (hkeyword.map _).bind fun _ => unplaced_tagged _ _
  · exact unplaced_readQuoted tag token

/-! ## Collections -/

/-- What the rule of a collection refuses has no place. -/
theorem unplaced_collection (kind : CollectionKind) (tag : String) (children : List Element) :
    Unplaced ((Grammar.collectionRule kind).process tag children) :=
  failsWith_collection (fun _ => Error.isUnplaced_ofCause trivial)
    (fun _ => Error.isUnplaced_ofCause trivial) (fun _ => Error.isUnplaced_ofCause trivial) kind tag
    children

end Unplaced

end Edn
