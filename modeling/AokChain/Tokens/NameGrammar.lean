import AokChain.Tokens.Verify

/-!
# The token name grammar

`IsTokenNameValid` runs a cascade of regular expressions.  This module states
the grammar they stand for and proves that the cascade decides exactly it, with
one type per name.  A root or sub name is a list of segments joined by `/`.
Each segment is made of name characters, with no `.` or `_` first, last or
twice in a row; the first segment is at least three long and not protected.
Owner, unique and username names are built on top of those.

The proofs read each regex as one clause of the grammar, the `boost::split` of
the source as `List.splitOn`, and the cascade one indicator at a time: a name
of one grammar fails the indicators tried before its own.
-/

namespace AokChain
open Serial

section Characters

set_option maxRecDepth 10000 in
theorem isDotChar_of_isNameChar : ∀ c, isNameChar c = true → isDotChar c = true :=
  UInt8.forall_of_lt (by decide)

set_option maxRecDepth 10000 in
theorem isIndicatorPrefixChar_of_isNameChar : ∀ c, isNameChar c = true → isIndicatorPrefixChar c = true :=
  UInt8.forall_of_lt (by decide)

set_option maxRecDepth 10000 in
/-- The characters of a unique tag are those the tag part of `UNIQUE_INDICATOR` admits. -/
theorem tagIndicator_of_isUniqueTagChar :
    ∀ c, isUniqueTagChar c = true → (c != chr '~' && c != chr '#' && c != chr '!' && c != chr '/') = true :=
  UInt8.forall_of_lt (by decide)

theorem ne_of_isNameChar {c : UInt8} (h : isNameChar c = true) :
    c ≠ chr '/' ∧ c ≠ chr '#' ∧ c ≠ chr '!' ∧ c ≠ chr '@' := by
  refine ⟨?_, ?_, ?_, ?_⟩ <;> rintro rfl <;> revert h <;> decide

theorem hash_ne_of_isUniqueTagChar {c : UInt8} (h : isUniqueTagChar c = true) : c ≠ chr '#' := by
  rintro rfl
  revert h
  decide

end Characters

section Grammar

/-- Two neighbouring characters that are not both `.` or `_`. -/
def NotDoublePunctuation (a b : UInt8) : Prop := ¬ (isPunctuation a = true ∧ isPunctuation b = true)

/-- A segment of a root or sub name: name characters, with `.` and `_` neither
first, last nor twice in a row. -/
def NameSegment (seg : Bytes) : Prop :=
  seg ≠ [] ∧ (∀ c ∈ seg, isNameChar c = true) ∧ (∀ c ∈ seg.head?, isPunctuation c = false) ∧
    (∀ c ∈ seg.getLast?, isPunctuation c = false) ∧ seg.IsChain NotDoublePunctuation

/-- The first segment: at least three characters, and not one of the protected names. -/
def RootSegment (seg : Bytes) : Prop := NameSegment seg ∧ 3 ≤ seg.length ∧ matchProtectedNames seg = false

def RootGrammar (name : Bytes) : Prop := RootSegment name ∧ name.length ≤ 30

def SubGrammar (name : Bytes) : Prop :=
  ∃ root subs, subs ≠ [] ∧ name = [chr '/'].intercalate (root :: subs) ∧ RootSegment root ∧
    (∀ s ∈ subs, NameSegment s) ∧ name.length ≤ 30

def OwnerGrammar (name : Bytes) : Prop :=
  ∃ p, name = p ++ [chr '!'] ∧ (RootGrammar p ∨ SubGrammar p) ∧ name.length ≤ 31

def UniqueGrammar (name : Bytes) : Prop :=
  ∃ p tag, name = p ++ chr '#' :: tag ∧ (RootGrammar p ∨ SubGrammar p) ∧ tag ≠ [] ∧
    (∀ c ∈ tag, isUniqueTagChar c = true) ∧ name.length ≤ 31

def UsernameGrammar (name : Bytes) : Prop :=
  ∃ rest, name = chr '@' :: rest ∧ 4 ≤ rest.length ∧ (∀ c ∈ rest, isNameChar c = true) ∧ name.length ≤ 31

/-- The grammar of each type; `INVALID` is the name of no grammar, and nothing is
classified `REISSUE`. -/
def NameGrammar : KnownTokenType → Bytes → Prop
  | .ROOT, name => RootGrammar name
  | .SUB, name => SubGrammar name
  | .OWNER, name => OwnerGrammar name
  | .UNIQUE, name => UniqueGrammar name
  | .USERNAME, name => UsernameGrammar name
  | .REISSUE, _ => False
  | .INVALID, name =>
    ¬ (RootGrammar name ∨ SubGrammar name ∨ OwnerGrammar name ∨ UniqueGrammar name ∨ UsernameGrammar name)

/-- A root followed by any sub names: what `IsNameValidBeforeTag` accepts. -/
def BeforeTag (name : Bytes) : Prop :=
  ∃ root subs, name = [chr '/'].intercalate (root :: subs) ∧ RootSegment root ∧ ∀ s ∈ subs, NameSegment s

end Grammar

section Segments

variable {seg : Bytes}

theorem all_isDotChar (hseg : ∀ c ∈ seg, isNameChar c = true) : seg.all isDotChar = true :=
  List.all_eq_true.2 fun c hc => isDotChar_of_isNameChar c (hseg c hc)

-- Over name characters every `.` of the regex matches, so the regex finds two
-- punctuation characters in a row exactly where the chain breaks.
theorem matchDoublePunctuation_iff (hseg : ∀ c ∈ seg, isNameChar c = true) :
    matchDoublePunctuation seg = true ↔ ¬ seg.IsChain NotDoublePunctuation := by
  fun_induction matchDoublePunctuation seg with
  | case1 a b rest ih =>
    have hrest := all_isDotChar fun c hc => hseg c (List.mem_cons_of_mem _ (List.mem_cons_of_mem _ hc))
    have ha := isDotChar_of_isNameChar a (hseg a List.mem_cons_self)
    have hm := ih fun c hc => hseg c (List.mem_cons_of_mem _ hc)
    rw [List.isChain_cons_cons]
    simp only [hrest, ha, Bool.and_true, Bool.true_and, Bool.or_eq_true, Bool.and_eq_true, hm,
      NotDoublePunctuation]
    tauto
  | case2 seg hshape =>
    rcases seg with _ | ⟨a, _ | ⟨b, rest⟩⟩
    · simp
    · simp
    · exact absurd rfl (hshape a b rest)

theorem matchDoublePunctuation_eq_false_iff (hseg : ∀ c ∈ seg, isNameChar c = true) :
    matchDoublePunctuation seg = false ↔ seg.IsChain NotDoublePunctuation := by
  rw [← Bool.not_eq_true, matchDoublePunctuation_iff hseg, not_not]

theorem matchLeadingPunctuation_eq_false_iff (hseg : ∀ c ∈ seg, isNameChar c = true) :
    matchLeadingPunctuation seg = false ↔ ∀ c ∈ seg.head?, isPunctuation c = false := by
  cases seg with
  | nil => simp [matchLeadingPunctuation]
  | cons c rest =>
    simp [matchLeadingPunctuation, all_isDotChar fun x hx => hseg x (List.mem_cons_of_mem _ hx)]

theorem matchTrailingPunctuation_eq_false_iff (hseg : ∀ c ∈ seg, isNameChar c = true) :
    matchTrailingPunctuation seg = false ↔ ∀ c ∈ seg.getLast?, isPunctuation c = false := by
  have hdrop : seg.dropLast.all isDotChar = true :=
    all_isDotChar fun c hc => hseg c (List.dropLast_subset _ hc)
  unfold matchTrailingPunctuation
  cases seg.getLast? <;> simp [hdrop]

-- The three punctuation regexes of `IsRootNameValid` and `IsSubNameValid`, on name characters.
theorem punctuation_iff (hseg : ∀ c ∈ seg, isNameChar c = true) :
    (matchDoublePunctuation seg = false ∧ matchLeadingPunctuation seg = false ∧
        matchTrailingPunctuation seg = false) ↔
      ((∀ c ∈ seg.head?, isPunctuation c = false) ∧ (∀ c ∈ seg.getLast?, isPunctuation c = false) ∧
        seg.IsChain NotDoublePunctuation) := by
  rw [matchDoublePunctuation_eq_false_iff hseg, matchLeadingPunctuation_eq_false_iff hseg,
    matchTrailingPunctuation_eq_false_iff hseg]
  tauto

theorem isSubNameValid_iff : isSubNameValid seg = true ↔ NameSegment seg := by
  simp only [isSubNameValid, matchSubNameCharacters, Bool.and_eq_true, Bool.not_eq_true', decide_eq_true_eq,
    List.all_eq_true, NameSegment]
  constructor
  · rintro ⟨⟨⟨⟨hlen, hchars⟩, hdouble⟩, hlead⟩, htrail⟩
    exact ⟨List.ne_nil_of_length_pos hlen, hchars, (punctuation_iff hchars).1 ⟨hdouble, hlead, htrail⟩⟩
  · rintro ⟨hne, hchars, hrules⟩
    obtain ⟨hdouble, hlead, htrail⟩ := (punctuation_iff hchars).2 hrules
    exact ⟨⟨⟨⟨List.length_pos_of_ne_nil hne, hchars⟩, hdouble⟩, hlead⟩, htrail⟩

theorem isRootNameValid_iff : isRootNameValid seg = true ↔ RootSegment seg := by
  simp only [isRootNameValid, matchRootNameCharacters, Bool.and_eq_true, Bool.not_eq_true', decide_eq_true_eq,
    List.all_eq_true, RootSegment, NameSegment]
  constructor
  · rintro ⟨⟨⟨⟨⟨hlen, hchars⟩, hdouble⟩, hlead⟩, htrail⟩, hprotected⟩
    exact ⟨⟨List.ne_nil_of_length_pos (by omega), hchars, (punctuation_iff hchars).1 ⟨hdouble, hlead, htrail⟩⟩,
      hlen, hprotected⟩
  · rintro ⟨⟨-, hchars, hrules⟩, hlen, hprotected⟩
    obtain ⟨hdouble, hlead, htrail⟩ := (punctuation_iff hchars).2 hrules
    exact ⟨⟨⟨⟨⟨hlen, hchars⟩, hdouble⟩, hlead⟩, htrail⟩, hprotected⟩

theorem NameSegment.slash_not_mem (h : NameSegment seg) : chr '/' ∉ seg := fun hm =>
  (ne_of_isNameChar (h.2.1 _ hm)).1 rfl

end Segments

section BeforeTag

variable {name p : Bytes}

theorem mem_intercalate_slash {c : UInt8} {root : Bytes} {subs : List Bytes}
    (h : c ∈ [chr '/'].intercalate (root :: subs)) : c = chr '/' ∨ c ∈ root ∨ ∃ s ∈ subs, c ∈ s := by
  induction subs generalizing root with
  | nil =>
    rw [List.intercalate_singleton] at h
    exact .inr (.inl h)
  | cons s subs ih =>
    rw [List.intercalate_cons_cons] at h
    simp only [List.mem_append, List.mem_singleton] at h
    rcases h with (h | h) | h
    · exact .inr (.inl h)
    · exact .inl h
    · rcases ih h with h | h | ⟨s', hs', hc⟩
      · exact .inl h
      · exact .inr (.inr ⟨s, List.mem_cons_self, h⟩)
      · exact .inr (.inr ⟨s', List.mem_cons_of_mem _ hs', hc⟩)

theorem BeforeTag.chars (h : BeforeTag name) : ∀ c ∈ name, isNameChar c = true ∨ c = chr '/' := by
  obtain ⟨root, subs, rfl, hroot, hsubs⟩ := h
  intro c hc
  rcases mem_intercalate_slash hc with h | h | ⟨s, hs, hcs⟩
  · exact .inr h
  · exact .inl (hroot.1.2.1 c h)
  · exact .inl ((hsubs s hs).2.1 c hcs)

-- None of the characters the indicators look for occurs before a tag.
theorem BeforeTag.no_indicators (h : BeforeTag name) : chr '#' ∉ name ∧ chr '!' ∉ name ∧ chr '@' ∉ name := by
  refine ⟨fun hm => ?_, fun hm => ?_, fun hm => ?_⟩ <;>
    rcases h.chars _ hm with hc | hc <;> revert hc <;> decide

theorem BeforeTag.prefixChars (h : BeforeTag name) : ∀ c ∈ name, isIndicatorPrefixChar c = true := by
  intro c hc
  rcases h.chars c hc with hc | rfl
  · exact isIndicatorPrefixChar_of_isNameChar c hc
  · decide

theorem BeforeTag.ne_nil (h : BeforeTag name) : name ≠ [] := by
  obtain ⟨root, subs, rfl, hroot, -⟩ := h
  obtain ⟨c, hc⟩ := List.exists_mem_of_ne_nil _ hroot.1.1
  have hmem : c ∈ [chr '/'].intercalate (root :: subs) := by
    cases subs with
    | nil => rwa [List.intercalate_singleton]
    | cons s subs => rw [List.intercalate_cons_cons]; simp [hc]
  exact List.ne_nil_of_mem hmem

theorem splitOn_segments {root : Bytes} {subs : List Bytes} (hroot : NameSegment root)
    (hsubs : ∀ s ∈ subs, NameSegment s) :
    splitOn (chr '/') ([chr '/'].intercalate (root :: subs)) = root :: subs :=
  List.splitOn_intercalate _ (fun l hl => by
    rcases List.mem_cons.1 hl with rfl | hl
    · exact hroot.slash_not_mem
    · exact (hsubs l hl).slash_not_mem) (List.cons_ne_nil _ _)

theorem isNameValidBeforeTag_iff : isNameValidBeforeTag name = true ↔ BeforeTag name := by
  constructor
  · unfold isNameValidBeforeTag
    cases hsplit : splitOn (chr '/') name with
    | nil => simp
    | cons front rest =>
      simp only [Bool.and_eq_true, List.all_eq_true, isRootNameValid_iff, isSubNameValid_iff]
      rintro ⟨hroot, hsubs⟩
      exact ⟨front, rest, by rw [← hsplit, splitOn, List.intercalate_splitOn], hroot, hsubs⟩
  · rintro ⟨root, subs, rfl, hroot, hsubs⟩
    unfold isNameValidBeforeTag
    rw [splitOn_segments hroot.1 hsubs]
    simp only [Bool.and_eq_true, List.all_eq_true, isRootNameValid_iff, isSubNameValid_iff]
    exact ⟨hroot, hsubs⟩

theorem isTokenNameASubtoken_intercalate {root : Bytes} {subs : List Bytes} (hroot : RootSegment root)
    (hsubs : ∀ s ∈ subs, NameSegment s) :
    isTokenNameASubtoken ([chr '/'].intercalate (root :: subs)) = !subs.isEmpty := by
  unfold isTokenNameASubtoken
  rw [splitOn_segments hroot.1 hsubs]
  simp [isRootNameValid_iff.2 hroot]

-- Up to the length bound, what may precede a tag or an owner mark is a root or a sub name.
theorem beforeTag_iff (hlen : p.length ≤ 30) : BeforeTag p ↔ RootGrammar p ∨ SubGrammar p := by
  constructor
  · rintro ⟨root, subs, rfl, hroot, hsubs⟩
    cases subs with
    | nil => exact .inl ⟨by simpa using hroot, hlen⟩
    | cons s subs => exact .inr ⟨root, s :: subs, List.cons_ne_nil _ _, rfl, hroot, hsubs, hlen⟩
  · rintro (⟨hroot, -⟩ | ⟨root, subs, -, rfl, hroot, hsubs, -⟩)
    · exact ⟨p, [], List.intercalate_singleton.symm, hroot, by simp⟩
    · exact ⟨root, subs, rfl, hroot, hsubs⟩

end BeforeTag

section Indicators

variable {name : Bytes}

theorem matchUniqueIndicator_split (h : matchUniqueIndicator name = true) :
    ∃ pre tag, name = pre ++ chr '#' :: tag ∧ chr '#' ∉ pre ∧ chr '#' ∉ tag := by
  obtain ⟨pre, hpre⟩ : ∃ pre, name.takeWhile isIndicatorPrefixChar = pre := ⟨_, rfl⟩
  have hname : name = pre ++ name.dropWhile isIndicatorPrefixChar := hpre ▸ List.takeWhile_append_dropWhile.symm
  have hdrop : name.drop pre.length = name.dropWhile isIndicatorPrefixChar := by
    nth_rewrite 1 [hname]
    exact List.drop_left
  have hchars : ∀ c ∈ pre, isIndicatorPrefixChar c = true := List.all_eq_true.1 (hpre ▸ List.all_takeWhile)
  unfold matchUniqueIndicator at h
  simp only [hpre, hdrop] at h
  cases hD : name.dropWhile isIndicatorPrefixChar with
  | nil => simp [hD] at h
  | cons c tag =>
    rw [hD] at h hname
    simp only [Bool.and_eq_true, decide_eq_true_eq, beq_iff_eq, List.all_eq_true] at h
    obtain ⟨⟨⟨-, rfl⟩, -⟩, htag⟩ := h
    refine ⟨pre, tag, hname, fun hm => ?_, fun hm => ?_⟩
    · have hc := hchars _ hm
      revert hc
      decide
    · have hc := htag _ hm
      revert hc
      decide

theorem matchUniqueIndicator_of {pre tag : Bytes} (hpre : pre ≠ []) (hpchars : ∀ c ∈ pre, isIndicatorPrefixChar c = true)
    (htag : tag ≠ []) (htchars : ∀ c ∈ tag, (c != chr '~' && c != chr '#' && c != chr '!' && c != chr '/') = true) :
    matchUniqueIndicator (pre ++ chr '#' :: tag) = true := by
  have htake : (pre ++ chr '#' :: tag).takeWhile isIndicatorPrefixChar = pre := by
    rw [List.takeWhile_append_of_pos hpchars, List.takeWhile_cons_of_neg (by decide), List.append_nil]
  unfold matchUniqueIndicator
  simp only [htake, List.drop_left]
  simp only [Bool.and_eq_true, decide_eq_true_eq, beq_self_eq_true, and_true, List.all_eq_true]
  exact ⟨⟨List.length_pos_of_ne_nil hpre, List.length_pos_of_ne_nil htag⟩,
    fun c hc => by simpa only [Bool.and_eq_true] using htchars c hc⟩

theorem matchUniqueIndicator_eq_false (h : chr '#' ∉ name) : matchUniqueIndicator name = false := by
  cases hm : matchUniqueIndicator name
  · rfl
  · obtain ⟨pre, tag, rfl, -, -⟩ := matchUniqueIndicator_split hm
    simp at h

theorem matchOwnerIndicator_iff : matchOwnerIndicator name = true ↔
    ∃ pre, name = pre ++ [chr '!'] ∧ pre ≠ [] ∧ ∀ c ∈ pre, isIndicatorPrefixChar c = true := by
  constructor
  · unfold matchOwnerIndicator
    cases hl : name.getLast? with
    | none => simp
    | some c =>
      simp only [Bool.and_eq_true, beq_iff_eq, decide_eq_true_eq, List.all_eq_true]
      rintro ⟨⟨rfl, hlen⟩, hchars⟩
      exact ⟨name.dropLast, (List.dropLast_append_getLast? _ (by simp [hl])).symm,
        List.ne_nil_of_length_pos hlen, hchars⟩
  · rintro ⟨pre, rfl, hne, hchars⟩
    simp only [matchOwnerIndicator, List.getLast?_concat, List.dropLast_concat, beq_self_eq_true,
      Bool.true_and, Bool.and_eq_true, decide_eq_true_eq, List.all_eq_true]
    exact ⟨List.length_pos_of_ne_nil hne, hchars⟩

theorem matchOwnerIndicator_eq_false (h : chr '!' ∉ name) : matchOwnerIndicator name = false := by
  cases hm : matchOwnerIndicator name
  · rfl
  · obtain ⟨pre, rfl, -⟩ := matchOwnerIndicator_iff.1 hm
    simp at h

theorem matchUsernameCharacters_iff : matchUsernameCharacters name = true ↔
    ∃ rest, name = chr '@' :: rest ∧ 4 ≤ rest.length ∧ ∀ c ∈ rest, isNameChar c = true := by
  cases name with
  | nil => simp [matchUsernameCharacters]
  | cons c rest => simp [matchUsernameCharacters, and_assoc]

theorem matchUsernameCharacters_eq_false (h : chr '@' ∉ name) : matchUsernameCharacters name = false := by
  cases hm : matchUsernameCharacters name
  · rfl
  · obtain ⟨rest, rfl, -⟩ := matchUsernameCharacters_iff.1 hm
    simp at h

end Indicators

section Checks

variable {name : Bytes}

theorem splitOn_hash {pre tag : Bytes} (hpre : chr '#' ∉ pre) (htag : chr '#' ∉ tag) :
    splitOn (chr '#') (pre ++ chr '#' :: tag) = [pre, tag] := by
  have h : List.splitOn (chr '#') ([chr '#'].intercalate [pre, tag]) = [pre, tag] :=
    List.splitOn_intercalate _ (by simp [hpre, htag]) (by simp)
  rw [List.intercalate_cons_cons, List.intercalate_singleton] at h
  unfold splitOn
  simpa using h

theorem isTypeCheckNameValid_unique {pre tag : Bytes} (hpre : chr '#' ∉ pre) (htag : chr '#' ∉ tag) :
    isTypeCheckNameValid .UNIQUE (pre ++ chr '#' :: tag) = .ok () ↔
      (pre ++ chr '#' :: tag).length ≤ 31 ∧ BeforeTag pre ∧ tag ≠ [] ∧ ∀ c ∈ tag, isUniqueTagChar c = true := by
  simp only [isTypeCheckNameValid, splitOn_hash hpre htag, List.headD_cons, List.getLastD_cons,
    List.getLastD_nil, MAX_NAME_LENGTH]
  split_ifs with hlen hvalid
  · simp only [false_iff]
    omega
  · simp only [Bool.and_eq_true, isNameValidBeforeTag_iff, isUniqueTagValid, matchUniqueTagCharacters,
      decide_eq_true_eq, List.all_eq_true] at hvalid
    simp only [true_iff]
    exact ⟨by omega, hvalid.1, List.ne_nil_of_length_pos hvalid.2.1, hvalid.2.2⟩
  · simp only [Bool.and_eq_true, isNameValidBeforeTag_iff, isUniqueTagValid, matchUniqueTagCharacters,
      decide_eq_true_eq, List.all_eq_true, not_and] at hvalid
    simp only [false_iff, not_and]
    intro _ hbt hne hchars
    exact hvalid hbt (List.length_pos_of_ne_nil hne) hchars

theorem isTypeCheckNameValid_owner (pre : Bytes) :
    isTypeCheckNameValid .OWNER (pre ++ [chr '!']) = .ok () ↔
      (pre ++ [chr '!']).length ≤ 31 ∧ BeforeTag pre := by
  simp only [isTypeCheckNameValid, List.dropLast_concat, MAX_NAME_LENGTH]
  split_ifs with hlen hvalid
  · simp only [false_iff, not_and]
    omega
  · simp only [true_iff]
    exact ⟨by omega, isNameValidBeforeTag_iff.1 hvalid⟩
  · simp only [false_iff, not_and]
    exact fun _ hbt => hvalid (isNameValidBeforeTag_iff.2 hbt)

theorem isTypeCheckNameValid_username :
    isTypeCheckNameValid .USERNAME name = .ok () ↔ name.length ≤ 31 ∧ matchUsernameCharacters name = true := by
  -- the check reads the regex through isUsernameValid, whose instance the split must see
  show _ ↔ name.length ≤ 31 ∧ isUsernameValid name = true
  by_cases hlen : name.length ≤ 31
  · have hlen' : ¬ name.length > MAX_NAME_LENGTH := by simp only [MAX_NAME_LENGTH]; omega
    simp only [isTypeCheckNameValid, hlen', if_false, hlen, true_and]
    cases isUsernameValid name <;> simp
  · have hlen' : name.length > MAX_NAME_LENGTH := by simp only [MAX_NAME_LENGTH]; omega
    simp only [isTypeCheckNameValid, hlen', if_true, hlen, false_and, iff_false]
    exact fun h => nomatch h

-- The root and sub branch of `IsTypeCheckNameValid`: its three error texts fail
-- the same names as the bound, the length of a root and the grammar.
theorem isTypeCheckNameValid_plain {t : KnownTokenType} (ht : t = .ROOT ∨ t = .SUB) :
    isTypeCheckNameValid t name = .ok () ↔
      name.length ≤ 30 ∧ (isTokenNameASubtoken name = true ∨ 3 ≤ name.length) ∧ BeforeTag name := by
  have hplain : isTypeCheckNameValid t name =
      if name.length > 30 then .error "Name is greater than max length of 30"
      else if !isTokenNameASubtoken name && name.length < 3 then
        .error "Name must be contain 3 characters"
      else if !isNameValidBeforeTag name && isTokenNameASubtoken name && name.length < 3 then
        .error "Name must have at least 3 characters (Valid characters are: A-Z 0-9 _ .)"
      else if !isNameValidBeforeTag name then
        .error "Name contains invalid characters (Valid characters are: A-Z 0-9 _ .) (special characters can\x27t be the first or last characters)"
      else .ok () := by
    rcases ht with rfl | rfl <;> rfl
  rw [hplain, ← isNameValidBeforeTag_iff]
  by_cases hlen : name.length ≤ 30
  · rw [if_neg (show ¬ name.length > 30 by omega)]
    by_cases h3 : name.length < 3
    · cases isTokenNameASubtoken name <;> cases isNameValidBeforeTag name <;> simp [hlen, h3]
    · have h3' : 3 ≤ name.length := by omega
      cases isTokenNameASubtoken name <;> cases isNameValidBeforeTag name <;> simp [hlen, h3, h3']
  · rw [if_pos (show name.length > 30 by omega)]
    simp [hlen]

end Checks

section Classification

variable {name : Bytes}

theorem tokenNameType_ne (name : Bytes) : tokenNameType name ≠ .INVALID ∧ tokenNameType name ≠ .REISSUE := by
  unfold tokenNameType
  split_ifs <;> decide

-- Each grammar passes the indicators tried before its own, then its own check.
theorem uniqueGrammar_check (h : UniqueGrammar name) :
    tokenNameType name = .UNIQUE ∧ isTypeCheckNameValid .UNIQUE name = .ok () := by
  obtain ⟨p, tag, rfl, hp, htag, htchars, hlen⟩ := h
  have hbt : BeforeTag p := (beforeTag_iff (by simp at hlen; omega)).2 hp
  have hhash : chr '#' ∉ tag := fun hm => hash_ne_of_isUniqueTagChar (htchars _ hm) rfl
  refine ⟨?_, (isTypeCheckNameValid_unique hbt.no_indicators.1 hhash).2 ⟨hlen, hbt, htag, htchars⟩⟩
  unfold tokenNameType
  rw [if_pos (matchUniqueIndicator_of hbt.ne_nil hbt.prefixChars htag
    fun c hc => tagIndicator_of_isUniqueTagChar c (htchars c hc))]

theorem ownerGrammar_check (h : OwnerGrammar name) :
    tokenNameType name = .OWNER ∧ isTypeCheckNameValid .OWNER name = .ok () := by
  obtain ⟨p, rfl, hp, hlen⟩ := h
  have hbt : BeforeTag p := (beforeTag_iff (by simp at hlen; omega)).2 hp
  refine ⟨?_, (isTypeCheckNameValid_owner p).2 ⟨hlen, hbt⟩⟩
  have hhash : chr '#' ∉ p ++ [chr '!'] := by
    rw [List.mem_append, List.mem_singleton, not_or]
    exact ⟨hbt.no_indicators.1, by decide⟩
  unfold tokenNameType
  rw [if_neg (by simp [matchUniqueIndicator_eq_false hhash]),
    if_pos (matchOwnerIndicator_iff.2 ⟨p, rfl, hbt.ne_nil, hbt.prefixChars⟩)]

theorem usernameGrammar_check (h : UsernameGrammar name) :
    tokenNameType name = .USERNAME ∧ isTypeCheckNameValid .USERNAME name = .ok () := by
  obtain ⟨rest, rfl, h4, hchars, hlen⟩ := h
  have hm : matchUsernameCharacters (chr '@' :: rest) = true := matchUsernameCharacters_iff.2 ⟨rest, rfl, h4, hchars⟩
  refine ⟨?_, isTypeCheckNameValid_username.2 ⟨hlen, hm⟩⟩
  have hhash : chr '#' ∉ chr '@' :: rest := by
    simp only [List.mem_cons, not_or]
    exact ⟨by decide, fun hr => (ne_of_isNameChar (hchars _ hr)).2.1 rfl⟩
  have hbang : chr '!' ∉ chr '@' :: rest := by
    simp only [List.mem_cons, not_or]
    exact ⟨by decide, fun hr => (ne_of_isNameChar (hchars _ hr)).2.2.1 rfl⟩
  unfold tokenNameType
  rw [if_neg (by simp [matchUniqueIndicator_eq_false hhash]), if_neg (by simp [matchOwnerIndicator_eq_false hbang]),
    if_pos hm]

theorem beforeTag_check (h : BeforeTag name) (t : KnownTokenType)
    (ht : t = if isTokenNameASubtoken name then .SUB else .ROOT) :
    tokenNameType name = t := by
  obtain ⟨hhash, hbang, hat⟩ := h.no_indicators
  unfold tokenNameType
  rw [if_neg (by simp [matchUniqueIndicator_eq_false hhash]), if_neg (by simp [matchOwnerIndicator_eq_false hbang]),
    if_neg (by simp [matchUsernameCharacters_eq_false hat]), ht]

theorem rootGrammar_check (h : RootGrammar name) :
    tokenNameType name = .ROOT ∧ isTypeCheckNameValid .ROOT name = .ok () := by
  have hbt : BeforeTag name := (beforeTag_iff h.2).2 (.inl h)
  have hsub : isTokenNameASubtoken name = false := by
    have hnil : ∀ s ∈ ([] : List Bytes), NameSegment s := by simp
    simpa using isTokenNameASubtoken_intercalate h.1 hnil
  exact ⟨beforeTag_check hbt _ (by simp [hsub]),
    (isTypeCheckNameValid_plain (.inl rfl)).2 ⟨h.2, .inr h.1.2.1, hbt⟩⟩

theorem subGrammar_check (h : SubGrammar name) :
    tokenNameType name = .SUB ∧ isTypeCheckNameValid .SUB name = .ok () := by
  obtain ⟨root, subs, hne, rfl, hroot, hsubs, hlen⟩ := h
  have hbt : BeforeTag ([chr '/'].intercalate (root :: subs)) := ⟨root, subs, rfl, hroot, hsubs⟩
  have hsub : isTokenNameASubtoken ([chr '/'].intercalate (root :: subs)) = true := by
    rw [isTokenNameASubtoken_intercalate hroot hsubs]
    simpa using hne
  exact ⟨beforeTag_check hbt _ (by simp [hsub]), (isTypeCheckNameValid_plain (.inr rfl)).2 ⟨hlen, .inl hsub, hbt⟩⟩

theorem nameGrammar_check {t : KnownTokenType} (ht : t ≠ .INVALID) (h : NameGrammar t name) :
    tokenNameType name = t ∧ isTypeCheckNameValid t name = .ok () := by
  cases t with
  | ROOT => exact rootGrammar_check h
  | SUB => exact subGrammar_check h
  | UNIQUE => exact uniqueGrammar_check h
  | OWNER => exact ownerGrammar_check h
  | REISSUE => exact h.elim
  | USERNAME => exact usernameGrammar_check h
  | INVALID => exact absurd rfl ht

-- A check that passes for the type the cascade tried puts the name in that type's grammar.
theorem nameGrammar_of_check (h : isTypeCheckNameValid (tokenNameType name) name = .ok ()) :
    NameGrammar (tokenNameType name) name := by
  unfold tokenNameType at h ⊢
  split_ifs at h ⊢ with hu ho hn hs
  · obtain ⟨pre, tag, rfl, hpre, htag⟩ := matchUniqueIndicator_split hu
    obtain ⟨hlen, hbt, hne, hchars⟩ := (isTypeCheckNameValid_unique hpre htag).1 h
    exact ⟨pre, tag, rfl, (beforeTag_iff (by simp at hlen; omega)).1 hbt, hne, hchars, hlen⟩
  · obtain ⟨pre, rfl, -, -⟩ := matchOwnerIndicator_iff.1 ho
    obtain ⟨hlen, hbt⟩ := (isTypeCheckNameValid_owner pre).1 h
    exact ⟨pre, rfl, (beforeTag_iff (by simp at hlen; omega)).1 hbt, hlen⟩
  · obtain ⟨hlen, hm⟩ := isTypeCheckNameValid_username.1 h
    obtain ⟨rest, rfl, h4, hchars⟩ := matchUsernameCharacters_iff.1 hm
    exact ⟨rest, rfl, h4, hchars, hlen⟩
  · obtain ⟨hlen, -, ⟨root, subs, rfl, hroot, hsubs⟩⟩ := (isTypeCheckNameValid_plain (.inr rfl)).1 h
    rw [isTokenNameASubtoken_intercalate hroot hsubs] at hs
    exact ⟨root, subs, by simpa using hs, rfl, hroot, hsubs, hlen⟩
  · obtain ⟨hlen, hsub3, ⟨root, subs, rfl, hroot, hsubs⟩⟩ := (isTypeCheckNameValid_plain (.inl rfl)).1 h
    rw [isTokenNameASubtoken_intercalate hroot hsubs] at hs
    obtain rfl : subs = [] := by simpa using hs
    exact ⟨by simpa using hroot, hlen⟩

theorem NameGrammar.some_grammar {t : KnownTokenType} (ht : t ≠ .INVALID) (h : NameGrammar t name) :
    RootGrammar name ∨ SubGrammar name ∨ OwnerGrammar name ∨ UniqueGrammar name ∨ UsernameGrammar name := by
  cases t with
  | ROOT => exact .inl h
  | SUB => exact .inr (.inl h)
  | OWNER => exact .inr (.inr (.inl h))
  | UNIQUE => exact .inr (.inr (.inr (.inl h)))
  | USERNAME => exact .inr (.inr (.inr (.inr h)))
  | REISSUE => exact h.elim
  | INVALID => exact absurd rfl ht

theorem isTokenNameValidType_fst_iff (name : Bytes) (t : KnownTokenType) :
    (isTokenNameValidType name).1 = t ↔ NameGrammar t name := by
  obtain ⟨hinv, -⟩ := tokenNameType_ne name
  simp only [isTokenNameValidType]
  cases hc : isTypeCheckNameValid (tokenNameType name) name with
  | ok u =>
    have hg := nameGrammar_of_check hc
    simp only
    constructor
    · rintro rfl
      exact hg
    · intro ht
      by_cases htinv : t = .INVALID
      · subst htinv
        exact absurd (hg.some_grammar hinv) ht
      · exact (nameGrammar_check htinv ht).1
  | error e =>
    -- a name of any grammar would pass the check of the type it is tried as
    have hnone : ∀ t', t' ≠ .INVALID → ¬ NameGrammar t' name := fun t' ht' hg' => by
      obtain ⟨htype, hok⟩ := nameGrammar_check ht' hg'
      rw [htype, hok] at hc
      cases hc
    simp only
    constructor
    · rintro rfl
      rintro (h | h | h | h | h)
      · exact hnone .ROOT (by decide) h
      · exact hnone .SUB (by decide) h
      · exact hnone .OWNER (by decide) h
      · exact hnone .UNIQUE (by decide) h
      · exact hnone .USERNAME (by decide) h
    · intro ht
      by_contra hne
      exact hnone t (Ne.symm hne) ht

end Classification

section Parent

variable {name : Bytes}

theorem isTokenNameValidType_of_grammar {t : KnownTokenType} (ht : t ≠ .INVALID) (h : NameGrammar t name) :
    isTokenNameValidType name = (t, .ok ()) := by
  obtain ⟨htype, hok⟩ := nameGrammar_check ht h
  simp only [isTokenNameValidType, htype, hok]

theorem idxOf?_append_cons {c : UInt8} {a : Bytes} (h : c ∉ a) (b : Bytes) :
    (a ++ c :: b).idxOf? c = some a.length := by
  induction a with
  | nil => simp [List.idxOf?_cons]
  | cons x xs ih =>
    rw [List.mem_cons, not_or] at h
    simp [List.idxOf?_cons, ih h.2, Ne.symm h.1]

-- The last occurrence of a character is the one with none of it after.
theorem findLastOf_append_cons {c : UInt8} (a : Bytes) {b : Bytes} (h : c ∉ b) :
    findLastOf (a ++ c :: b) c = some a.length := by
  have hrev : (a ++ c :: b).reverse = b.reverse ++ c :: a.reverse := by simp
  unfold findLastOf
  rw [hrev, idxOf?_append_cons (by simpa using h)]
  simp only [Option.map_some, List.length_append, List.length_cons, List.length_reverse]
  congr 1
  omega

theorem getParentName_of_findLastOf {t : KnownTokenType} {c : UInt8} (hv : isTokenNameValidType name = (t, .ok ()))
    (ht : t = .SUB ∧ c = chr '/' ∨ t = .UNIQUE ∧ c = chr '#') {i : ℕ} (hi : findLastOf name c = some i) :
    getParentName name = name.take i := by
  unfold getParentName
  rcases ht with ⟨rfl, rfl⟩ | ⟨rfl, rfl⟩ <;> simp [hv, hi, Except.isOk, Except.toBool]

theorem intercalate_concat {x : UInt8} (l : Bytes) (ls : List Bytes) (m : Bytes) :
    [x].intercalate (l :: (ls ++ [m])) = [x].intercalate (l :: ls) ++ x :: m := by
  induction ls generalizing l with
  | nil => simp [List.intercalate_cons_cons]
  | cons l' ls ih => simp [List.intercalate_cons_cons, ih]

-- A sub name is the join of its root and all but its last segment, a slash and
-- that segment; the front part is a root or a sub name, shorter than the whole.
theorem getParentName_sub (h : SubGrammar name) :
    ∃ tail, name = getParentName name ++ chr '/' :: tail ∧ chr '/' ∉ tail ∧
      (RootGrammar (getParentName name) ∨ SubGrammar (getParentName name)) := by
  have hv := isTokenNameValidType_of_grammar (t := .SUB) (by decide) h
  obtain ⟨root, subs, hne, rfl, hroot, hsubs, hlen⟩ := h
  obtain ⟨init, last, rfl⟩ : ∃ init last, subs = init ++ [last] :=
    ⟨subs.dropLast, subs.getLast hne, (List.dropLast_append_getLast hne).symm⟩
  have hlast : chr '/' ∉ last := (hsubs last (by simp)).slash_not_mem
  have hname := intercalate_concat (x := chr '/') root init last
  have hparent : getParentName ([chr '/'].intercalate (root :: (init ++ [last]))) =
      [chr '/'].intercalate (root :: init) := by
    rw [getParentName_of_findLastOf hv (.inl ⟨rfl, rfl⟩) (hname ▸ findLastOf_append_cons _ hlast), hname]
    exact List.take_left
  have hlen' : ([chr '/'].intercalate (root :: init)).length ≤ 30 := by
    rw [hname, List.length_append] at hlen
    omega
  refine ⟨last, by rw [hparent, hname], hlast, ?_⟩
  rw [hparent]
  have hinit : ∀ s ∈ init, NameSegment s := fun s hs => hsubs s (by simp [hs])
  exact (beforeTag_iff hlen').1 ⟨root, init, rfl, hroot, hinit⟩

-- A unique name has one `#`, after the name it is issued under.
theorem getParentName_unique (h : UniqueGrammar name) :
    ∃ tail, name = getParentName name ++ chr '#' :: tail ∧ chr '#' ∉ tail ∧
      (RootGrammar (getParentName name) ∨ SubGrammar (getParentName name)) := by
  have hv := isTokenNameValidType_of_grammar (t := .UNIQUE) (by decide) h
  obtain ⟨p, tag, rfl, hp, -, htchars, -⟩ := h
  have hhash : chr '#' ∉ tag := fun hm => hash_ne_of_isUniqueTagChar (htchars _ hm) rfl
  have hparent : getParentName (p ++ chr '#' :: tag) = p := by
    rw [getParentName_of_findLastOf hv (.inr ⟨rfl, rfl⟩) (findLastOf_append_cons _ hhash)]
    exact List.take_left
  rw [hparent]
  exact ⟨tag, rfl, hhash, hp⟩

end Parent

section Validity

theorem isTokenNameValid_iff_some_grammar (name : Bytes) :
    isTokenNameValid name = true ↔
      RootGrammar name ∨ SubGrammar name ∨ OwnerGrammar name ∨ UniqueGrammar name ∨ UsernameGrammar name := by
  rw [isTokenNameValid_iff]
  -- a name of a grammar is tried as that grammar's type, and passes its check
  have hcheck : ∀ t, t ≠ .INVALID → NameGrammar t name →
      isTypeCheckNameValid (tokenNameType name) name = .ok () := fun t ht hg => by
    obtain ⟨htype, hok⟩ := nameGrammar_check ht hg
    rw [htype]
    exact hok
  constructor
  · intro h
    exact (nameGrammar_of_check h).some_grammar (tokenNameType_ne name).1
  · rintro (h | h | h | h | h)
    · exact hcheck .ROOT (by decide) h
    · exact hcheck .SUB (by decide) h
    · exact hcheck .OWNER (by decide) h
    · exact hcheck .UNIQUE (by decide) h
    · exact hcheck .USERNAME (by decide) h

theorem isTokenNameValidType_root_or_sub {p : Bytes} (h : RootGrammar p ∨ SubGrammar p) :
    isTokenNameValidType p = (.ROOT, .ok ()) ∨ isTokenNameValidType p = (.SUB, .ok ()) := by
  rcases h with h | h
  · exact .inl (isTokenNameValidType_of_grammar (t := .ROOT) (by decide) h)
  · exact .inr (isTokenNameValidType_of_grammar (t := .SUB) (by decide) h)

/-- The regex cascade of `IsTokenNameValid` decides the token name grammar: a
name is valid exactly when it is of one of the five grammars, its type is the
one grammar it is of (`INVALID` for none), and the parent of a sub or unique
name is the part before its last `/` or its `#`, itself a valid root or sub name. -/
theorem isTokenNameValid_grammar (name : Bytes) :
    (isTokenNameValid name = true ↔
      RootGrammar name ∨ SubGrammar name ∨ OwnerGrammar name ∨ UniqueGrammar name ∨ UsernameGrammar name) ∧
    (∀ t, (isTokenNameValidType name).1 = t ↔ NameGrammar t name) ∧
    (SubGrammar name → ∃ tail, name = getParentName name ++ chr '/' :: tail ∧ chr '/' ∉ tail ∧
      (isTokenNameValidType (getParentName name) = (.ROOT, .ok ()) ∨
        isTokenNameValidType (getParentName name) = (.SUB, .ok ()))) ∧
    (UniqueGrammar name → ∃ tail, name = getParentName name ++ chr '#' :: tail ∧ chr '#' ∉ tail ∧
      (isTokenNameValidType (getParentName name) = (.ROOT, .ok ()) ∨
        isTokenNameValidType (getParentName name) = (.SUB, .ok ()))) := by
  refine ⟨isTokenNameValid_iff_some_grammar name, isTokenNameValidType_fst_iff name, fun h => ?_, fun h => ?_⟩
  · obtain ⟨tail, hname, hslash, hparent⟩ := getParentName_sub h
    exact ⟨tail, hname, hslash, isTokenNameValidType_root_or_sub hparent⟩
  · obtain ⟨tail, hname, hhash, hparent⟩ := getParentName_unique h
    exact ⟨tail, hname, hhash, isTokenNameValidType_root_or_sub hparent⟩

example : getParentName [chr 'A', chr 'B', chr 'C', chr '/', chr 'D'] = [chr 'A', chr 'B', chr 'C'] := by decide
example : getParentName [chr 'A', chr 'B', chr 'C', chr '#', chr 'x'] = [chr 'A', chr 'B', chr 'C'] := by decide

end Validity

end AokChain
