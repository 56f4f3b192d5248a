import AokChain.Primitives.Transaction

/-!
# Token names

The name grammar of `tokens/tokens.cpp`: the regular expressions of the source
are written as recognizers over the bytes of a `std::string`, and
`IsTokenNameValid` classifies a name by the first indicator that matches.
In the source's ECMAScript regexes `.` does not match a line terminator, so
`.*` is a run of bytes other than `\n` and `\r`.
-/

namespace AokChain
open Serial

/-- The byte of an ASCII character. -/
def chr (c : Char) : UInt8 := c.toNat.toUInt8

def MAX_NAME_LENGTH : ℕ := 31
def MIN_TOKEN_LENGTH : ℕ := 3

inductive KnownTokenType
  | ROOT
  | SUB
  | UNIQUE
  | OWNER
  | REISSUE
  | USERNAME
  | INVALID
  deriving DecidableEq, Repr

section Regexes

/-- `[A-Z0-9._]`. -/
def isNameChar (c : UInt8) : Bool :=
  (chr 'A' ≤ c && c ≤ chr 'Z') || (chr '0' ≤ c && c ≤ chr '9') || c == chr '.' || c == chr '_'

/-- `[._]`. -/
def isPunctuation (c : UInt8) : Bool := c == chr '.' || c == chr '_'

/-- The bytes `.` matches: all but the line terminators. -/
def isDotChar (c : UInt8) : Bool := c != chr '\n' && c != chr '\r'

/-- `[-A-Za-z0-9@$%&*()[\]{}_.?:]`. -/
def isUniqueTagChar (c : UInt8) : Bool :=
  (chr 'A' ≤ c && c ≤ chr 'Z') || (chr 'a' ≤ c && c ≤ chr 'z') || (chr '0' ≤ c && c ≤ chr '9') ||
    [chr '-', chr '@', chr '$', chr '%', chr '&', chr '*', chr '(', chr ')', chr '[', chr ']',
      chr '\x7b', chr '\x7d', chr '_', chr '.', chr '?', chr ':'].contains c

/-- `ROOT_NAME_CHARACTERS`: `^[A-Z0-9._]{3,}$`. -/
def matchRootNameCharacters (name : Bytes) : Bool := 3 ≤ name.length && name.all isNameChar

/-- `SUB_NAME_CHARACTERS`: `^[A-Z0-9._]+$`. -/
def matchSubNameCharacters (name : Bytes) : Bool := 1 ≤ name.length && name.all isNameChar

/-- `UNIQUE_TAG_CHARACTERS`. -/
def matchUniqueTagCharacters (tag : Bytes) : Bool := 1 ≤ tag.length && tag.all isUniqueTagChar

/-- `USERNAME_CHARACTERS` and `USERNAME_INDICATOR`: `^@[A-Z0-9._]{4,}$`. -/
def matchUsernameCharacters (name : Bytes) : Bool :=
  match name with
  | c :: rest => c == chr '@' && 4 ≤ rest.length && rest.all isNameChar
  | [] => false

/-- `DOUBLE_PUNCTUATION`: `^.*[._]{2,}.*$`. -/
def matchDoublePunctuation : Bytes → Bool
  | a :: b :: rest =>
    (isPunctuation a && isPunctuation b && rest.all isDotChar) ||
      (isDotChar a && matchDoublePunctuation (b :: rest))
  | _ => false

/-- `LEADING_PUNCTUATION`: `^[._].*$`. -/
def matchLeadingPunctuation (name : Bytes) : Bool :=
  match name with
  | c :: rest => isPunctuation c && rest.all isDotChar
  | [] => false

/-- `TRAILING_PUNCTUATION`: `^.*[._]$`. -/
def matchTrailingPunctuation (name : Bytes) : Bool :=
  match name.getLast? with
  | some c => isPunctuation c && name.dropLast.all isDotChar
  | none => false

/-- `PROTECTED_NAMES`. -/
def matchProtectedNames (name : Bytes) : Bool :=
  [[chr 'A', chr 'O', chr 'K'],
    [chr 'A', chr 'O', chr 'K', chr 'C', chr 'H', chr 'A', chr 'I', chr 'N'],
    [chr 'A', chr 'O', chr 'K', chr 'C', chr 'O', chr 'I', chr 'N'],
    [chr 'A', chr 'O', chr 'K', chr 'H', chr 'A', chr 'C', chr 'O', chr 'I', chr 'N'],
    [chr 'A', chr 'O', chr 'K', chr 'H', chr 'A', chr 'C', chr 'H', chr 'A', chr 'I', chr 'N']].contains
    name

/-- `[^^~#!]`. -/
def isIndicatorPrefixChar (c : UInt8) : Bool :=
  c != chr '^' && c != chr '~' && c != chr '#' && c != chr '!'

/-- `UNIQUE_INDICATOR`: `^[^^~#!]+#[^~#!\/]+$`; the prefix has no `#`, so the
split is at the first one. -/
def matchUniqueIndicator (name : Bytes) : Bool :=
  let pre := name.takeWhile isIndicatorPrefixChar
  match name.drop pre.length with
  | c :: tag =>
    1 ≤ pre.length && c == chr '#' && 1 ≤ tag.length &&
      tag.all (fun c => c != chr '~' && c != chr '#' && c != chr '!' && c != chr '/')
  | [] => false

/-- `OWNER_INDICATOR`: `^[^^~#!]+!$`. -/
def matchOwnerIndicator (name : Bytes) : Bool :=
  match name.getLast? with
  | some c => c == chr '!' && 1 ≤ name.dropLast.length && name.dropLast.all isIndicatorPrefixChar
  | none => false

end Regexes

/-- `boost::split` on one delimiter: every field, empty ones included. -/
def splitOn (delim : UInt8) (s : Bytes) : List Bytes := s.splitOn delim

def isRootNameValid (name : Bytes) : Bool :=
  matchRootNameCharacters name && !matchDoublePunctuation name && !matchLeadingPunctuation name &&
    !matchTrailingPunctuation name && !matchProtectedNames name

def isSubNameValid (name : Bytes) : Bool :=
  matchSubNameCharacters name && !matchDoublePunctuation name && !matchLeadingPunctuation name &&
    !matchTrailingPunctuation name

def isUniqueTagValid (tag : Bytes) : Bool := matchUniqueTagCharacters tag

def isUsernameValid (name : Bytes) : Bool := matchUsernameCharacters name

/-- `IsNameValidBeforeTag`: a root, then sub names, separated by `/`. -/
def isNameValidBeforeTag (name : Bytes) : Bool :=
  match splitOn (chr '/') name with
  | front :: rest => isRootNameValid front && rest.all isSubNameValid
  | [] => false

def isTokenNameASubtoken (name : Bytes) : Bool :=
  match splitOn (chr '/') name with
  | front :: rest => isRootNameValid front && !rest.isEmpty
  | [] => false

/-- `IsTypeCheckNameValid`, with the error text it sets. -/
def isTypeCheckNameValid (type : KnownTokenType) (name : Bytes) : Except String Unit :=
  match type with
  | .UNIQUE =>
    if name.length > MAX_NAME_LENGTH then .error "Name is greater than max length of 31"
    else
      let parts := splitOn (chr '#') name
      if isNameValidBeforeTag (parts.headD []) && isUniqueTagValid (parts.getLastD []) then .ok ()
      else .error "Unique name contains invalid characters (Valid characters are: A-Z a-z 0-9 @ $ % & * ( ) [ ] \x7b \x7d _ . ? : -)"
  | .OWNER =>
    if name.length > MAX_NAME_LENGTH then .error "Name is greater than max length of 31"
    else if isNameValidBeforeTag name.dropLast then .ok ()
    else .error "Owner name contains invalid characters (Valid characters are: A-Z 0-9 _ .) (special characters can\x27t be the first or last characters)"
  | .USERNAME =>
    if name.length > MAX_NAME_LENGTH then .error "Name is greater than max length of 31"
    else if isUsernameValid name then .ok ()
    else .error "Username contains invalid characters (Valid characters are: A-Z 0-9 _ .) (special characters can\x27t be the first or last characters)"
  | _ =>
    if name.length > MAX_NAME_LENGTH - 1 then .error "Name is greater than max length of 30"
    else if !isTokenNameASubtoken name && name.length < MIN_TOKEN_LENGTH then
      .error "Name must be contain 3 characters"
    else
      let valid := isNameValidBeforeTag name
      if !valid && isTokenNameASubtoken name && name.length < 3 then
        .error "Name must have at least 3 characters (Valid characters are: A-Z 0-9 _ .)"
      else if !valid then
        .error "Name contains invalid characters (Valid characters are: A-Z 0-9 _ .) (special characters can\x27t be the first or last characters)"
      else .ok ()

/-- The type `IsTokenNameValid` tries for a name: the first indicator that
matches, else a sub token or a root. -/
def tokenNameType (name : Bytes) : KnownTokenType :=
  if matchUniqueIndicator name then .UNIQUE
  else if matchOwnerIndicator name then .OWNER
  else if matchUsernameCharacters name then .USERNAME
  else if isTokenNameASubtoken name then .SUB
  else .ROOT

/-- `IsTokenNameValid(name, tokenType, error)`: the type is `INVALID` unless the
check of the tried type passes. -/
def isTokenNameValidType (name : Bytes) : KnownTokenType × Except String Unit :=
  let type := tokenNameType name
  match isTypeCheckNameValid type name with
  | .ok () => (type, .ok ())
  | .error e => (.INVALID, .error e)

def isTokenNameValid (name : Bytes) : Bool := (isTokenNameValidType name).2.isOk

/-- `IsTokenNameAnOwner`. -/
def isTokenNameAnOwner (name : Bytes) : Bool := isTokenNameValid name && matchOwnerIndicator name

theorem isTokenNameValid_iff (name : Bytes) :
    isTokenNameValid name = true ↔ isTypeCheckNameValid (tokenNameType name) name = .ok () := by
  unfold isTokenNameValid isTokenNameValidType
  cases h : isTypeCheckNameValid (tokenNameType name) name <;> simp [h, Except.isOk, Except.toBool]

/-- A valid name keeps the type it was tried as. -/
theorem isTokenNameValidType_fst {name : Bytes} (h : isTokenNameValid name = true) :
    (isTokenNameValidType name).1 = tokenNameType name := by
  rw [isTokenNameValid_iff] at h
  simp [isTokenNameValidType, h]

example : isTokenNameValid [chr 'A', chr 'B', chr 'C'] = true := by decide
example : isTokenNameValid [chr 'A', chr 'O', chr 'K'] = false := by decide
example : tokenNameType [chr 'A', chr 'B', chr 'C', chr '!'] = .OWNER := by decide

end AokChain
