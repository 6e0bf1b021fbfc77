import Mathlib.Data.Char
import Emelex.Lib.Checks
import Emelex.Lib.Glob

/-!
# Finding files by their names (`agent/workspace.rs`)

* `wildcardMatches` — a pattern against a name, byte by byte.
* `findFiles` — the discovered files whose names match.

A text is its characters; `asBytes` is its encoding in UTF-8.  What the walk has discovered is
given, and so is whether the call is cancelled at a file.

Principal results: `wildcardMatches_iff`, `wildcard_matches_characters`.
-/

set_option autoImplicit false

namespace Emelex

open Checks Glob

namespace Find

abbrev Text := List Char

/-- `as_bytes`. -/
def asBytes (text : Text) : List UInt8 := text.flatMap String.utf8EncodeChar

/-- What a byte of a pattern stands for. -/
def byteToken (byte : UInt8) : Token UInt8 :=
  if byte = 42 then .star else if byte = 63 then .any else .literal byte

/-- `next`, from `previous`. -/
def nextRow (value : List UInt8) (previous : List Bool) (token : UInt8) : List Bool :=
  match previous with
  | [] => []
  | diagonal :: aboves =>
    let first := decide (token = 42) && diagonal
    first :: nextCells (byteToken token) value aboves diagonal first

def wildcardMatches (pattern value : Text) : Bool :=
  let previous := true :: (asBytes value).map fun _ => false
  ((asBytes pattern).foldl (nextRow (asBytes value)) previous).getD (asBytes value).length false

/-! ## The tool -/

inductive ToolError where
  | respondToModel (message : String)
  | cancelled
deriving DecidableEq

def MAX_FIND_RESULTS : Nat := 2000
def MAX_WALK_DEPTH : Nat := 32
def MAX_FIND_PATTERN_CHARS : Nat := 256

structure FindArgs where
  path : Text
  pattern : Text
  maxResults : Nat
  maxDepth : Nat

/-- A file that was discovered; the name is `none` where the path has none in UTF-8. -/
structure DiscoveredFile where
  path : Text
  name : Option Text
deriving DecidableEq

/-- `DiscoveredFiles`. -/
structure Discovered where
  files : List DiscoveredFile
  skippedSensitiveCount : Nat
  skippedSensitivePaths : List Text

structure DiscoveryOutput where
  found : List Text
  skippedSensitiveCount : Nat
  skippedSensitivePaths : List Text
deriving DecidableEq

def validateRequiredText (value : Text) (maxChars : Option Nat) (name : String) :
    Except ToolError Unit := do
  ensure (value ≠ []) (ToolError.respondToModel s!"{name} cannot be empty")
  match maxChars with
  | some maxChars =>
    ensure (value.length ≤ maxChars)
      (ToolError.respondToModel s!"{name} cannot exceed {maxChars} characters")
  | none => .ok ()

/-- The loop over the files; `isCancelled` is asked before each one. -/
def findMatches (isCancelled : DiscoveredFile → Bool) (pattern : Text) (maxResults : Nat) :
    List Text → List DiscoveredFile → Except ToolError (List Text)
  | found, [] => .ok found
  | found, file :: files =>
    if isCancelled file then .error .cancelled
    else if file.name.any (wildcardMatches pattern ·) then
      let found := found ++ [file.path]
      if found.length = maxResults then .ok found
      else findMatches isCancelled pattern maxResults found files
    else findMatches isCancelled pattern maxResults found files

/-- `find_files`; `discover` is the walk, from a path and for a depth. -/
def findFiles (discover : Text → Nat → Except ToolError Discovered)
    (isCancelled : DiscoveredFile → Bool) (args : FindArgs) :
    Except ToolError DiscoveryOutput := do
  validateRequiredText args.path none "path"
  validateRequiredText args.pattern (some MAX_FIND_PATTERN_CHARS) "pattern"
  ensure (1 ≤ args.maxResults ∧ args.maxResults ≤ MAX_FIND_RESULTS)
    (ToolError.respondToModel s!"max_results must be in 1..={MAX_FIND_RESULTS}")
  ensure (args.maxDepth ≤ MAX_WALK_DEPTH)
    (ToolError.respondToModel s!"max_depth must be at most {MAX_WALK_DEPTH}")
  let discovered ← discover args.path args.maxDepth
  let found ← findMatches isCancelled args.pattern args.maxResults [] discovered.files
  return {
    found
    skippedSensitiveCount := discovered.skippedSensitiveCount
    skippedSensitivePaths := discovered.skippedSensitivePaths }

/-! ## Bytes -/

theorem nextRow_iff {tokens : List (Token UInt8)} {value : List UInt8} {token : UInt8}
    {first : Bool} {cells : List Bool} (hfirst : first = true ↔ Matches tokens [])
    (h : Row (Matches tokens) [] value cells) :
    ∃ first' cells', nextRow value (first :: cells) token = first' :: cells' ∧
      (first' = true ↔ Matches (tokens ++ [byteToken token]) []) ∧
      Row (Matches (tokens ++ [byteToken token])) [] value cells' := by
  have hstar : byteToken token = .star ↔ token = 42 := by
    unfold byteToken
    split
    · simp_all
    · split <;> simp_all
  have hnext : (decide (token = 42) && first) = true ↔
      Matches (tokens ++ [byteToken token]) [] := by
    rw [matches_snoc_nil, hstar, ← hfirst, Bool.and_eq_true, decide_eq_true_iff]
  exact ⟨_, _, rfl, hnext, nextCells_row h hfirst hnext⟩

theorem foldl_nextRow {bytes : List UInt8} {tokens : List (Token UInt8)} {value : List UInt8}
    {first : Bool} {cells : List Bool} (hfirst : first = true ↔ Matches tokens [])
    (h : Row (Matches tokens) [] value cells) :
    ((bytes.foldl (nextRow value) (first :: cells)).getD value.length false = true ↔
      Matches (tokens ++ bytes.map byteToken) value) := by
  induction bytes generalizing tokens first cells with
  | nil => simpa using Row.last hfirst h
  | cons token bytes ih =>
    obtain ⟨first', cells', hrow, hfirst', h'⟩ :=
      @nextRow_iff tokens value token first cells hfirst h
    rw [List.foldl_cons, hrow, ih hfirst' h', List.append_assoc]
    rfl

/-- The program decides the language of the bytes. -/
theorem wildcardMatches_iff {pattern value : Text} :
    wildcardMatches pattern value = true ↔
      Matches ((asBytes pattern).map byteToken) (asBytes value) := by
  have hfirst : true = true ↔ Matches ([] : List (Token UInt8)) [] := by
    simp [matches_nil]
  exact foldl_nextRow hfirst (row_nil [] _)

/-! ## Characters -/

/-- What a character of a pattern stands for. -/
def charToken (c : Char) : Token Char :=
  if c = '*' then .star else if c = '?' then .any else .literal c

/-- A name of the language over characters. -/
def GlobMatches (pattern value : Text) : Prop := Matches (pattern.map charToken) value

def IsAscii (c : Char) : Prop := c.toNat < 128

instance (c : Char) : Decidable (IsAscii c) := inferInstanceAs (Decidable (c.toNat < 128))

/-- A byte that no character begins with. -/
def Tail (byte : UInt8) : Prop := 128 ≤ byte.toNat ∧ byte.toNat < 192

theorem toNat_part (n : Nat) {base span : Nat} (hpos : 0 < span) (hle : base + span ≤ 256) :
    base ≤ (UInt8.ofNat (n % span + base)).toNat ∧
      (UInt8.ofNat (n % span + base)).toNat < base + span := by
  have hlt : n % span < span := Nat.mod_lt _ hpos
  rw [UInt8.toNat_ofNat_of_lt' (show _ < 256 by omega)]
  omega

theorem tail_part (n : Nat) : Tail (UInt8.ofNat (n % 64 + 128)) :=
  toNat_part n (by decide) (by decide)

theorem not_tail {n base span : Nat} (hbase : 192 ≤ base) (hpos : 0 < span)
    (hle : base + span ≤ 256) :
    128 ≤ (UInt8.ofNat (n % span + base)).toNat ∧ ¬ Tail (UInt8.ofNat (n % span + base)) := by
  have h := toNat_part n hpos hle
  exact ⟨by omega, fun htail => absurd htail.2 (by omega)⟩

theorem encode_ascii {c : Char} (h : IsAscii c) :
    String.utf8EncodeChar c = [UInt8.ofNat c.toNat] :=
  if_pos (Nat.le_of_lt_succ h)

/-- All bytes of another character are beyond those of ASCII, and all but the first are tails. -/
theorem encode_not_ascii {c : Char} (h : ¬ IsAscii c) :
    ∃ first second rest, String.utf8EncodeChar c = first :: second :: rest ∧
      (128 ≤ first.toNat ∧ ¬ Tail first) ∧ ∀ byte ∈ second :: rest, Tail byte := by
  have hlarge : ¬ c.val.toNat ≤ 127 := fun hle => h (Nat.lt_succ_of_le hle)
  unfold String.utf8EncodeChar
  simp only [if_neg hlarge]
  split_ifs
  all_goals refine ⟨_, _, _, rfl, not_tail (by decide) (by decide) (by decide), ?_⟩
  all_goals
    simp only [List.forall_mem_cons, List.not_mem_nil, false_implies, implies_true, and_true]
  · exact tail_part _
  · exact ⟨tail_part _, tail_part _⟩
  · exact ⟨tail_part _, tail_part _, tail_part _⟩

theorem encode_eq (c : Char) :
    ∃ first rest, String.utf8EncodeChar c = first :: rest ∧ ¬ Tail first ∧
      ∀ byte ∈ rest, Tail byte := by
  by_cases hc : IsAscii c
  · refine ⟨_, [], encode_ascii hc, ?_, by simp⟩
    unfold IsAscii at hc
    unfold Tail
    rw [UInt8.toNat_ofNat_of_lt' (show _ < 256 by omega)]
    omega
  · obtain ⟨first, second, rest, heq, ⟨-, hfirst⟩, htail⟩ := encode_not_ascii hc
    exact ⟨first, second :: rest, heq, hfirst, htail⟩

theorem asBytes_cons (c : Char) (text : Text) :
    asBytes (c :: text) = String.utf8EncodeChar c ++ asBytes text := List.flatMap_cons

theorem length_asBytes_le (text : Text) : text.length ≤ (asBytes text).length := by
  induction text with
  | nil => exact Nat.le_refl _
  | cons c text ih =>
    have hpos := List.length_pos_iff.2 (@String.utf8EncodeChar_ne_nil c)
    rw [asBytes_cons, List.length_append, List.length_cons]
    omega

theorem asBytes_eq_nil {text : Text} : asBytes text = [] ↔ text = [] := by
  constructor
  · intro h
    have hle := length_asBytes_le text
    rw [h] at hle
    exact List.length_eq_zero_iff.1 (Nat.le_zero.1 hle)
  · rintro rfl
    rfl

/-- Only where all characters are ASCII is there one byte for each. -/
theorem length_asBytes {text : Text} (h : (asBytes text).length = text.length) :
    ∀ c ∈ text, IsAscii c := by
  induction text with
  | nil => simp
  | cons c text ih =>
    have hle := length_asBytes_le text
    rw [asBytes_cons, List.length_append, List.length_cons] at h
    rw [List.forall_mem_cons]
    by_cases hc : IsAscii c
    · rw [encode_ascii hc, List.length_singleton] at h
      exact ⟨hc, ih (by omega)⟩
    · obtain ⟨first, second, rest, heq, -⟩ := encode_not_ascii hc
      rw [heq, List.length_cons, List.length_cons] at h
      omega

theorem asBytes_ascii {text : Text} (h : ∀ c ∈ text, IsAscii c) :
    asBytes text = text.map fun c => UInt8.ofNat c.toNat := by
  induction text with
  | nil => rfl
  | cons c text ih =>
    obtain ⟨hc, htext⟩ := List.forall_mem_cons.1 h
    rw [asBytes_cons, encode_ascii hc, ih htext]
    rfl

theorem ofNat_ascii_inj {c d : Char} (hc : IsAscii c) (hd : IsAscii d)
    (h : UInt8.ofNat c.toNat = UInt8.ofNat d.toNat) : c = d := by
  have hnat := congrArg UInt8.toNat h
  unfold IsAscii at hc hd
  rw [UInt8.toNat_ofNat_of_lt' (show _ < 256 by omega),
    UInt8.toNat_ofNat_of_lt' (show _ < 256 by omega)] at hnat
  exact Char.toNat_inj.1 hnat

theorem byteToken_large {byte : UInt8} (h : 128 ≤ byte.toNat) :
    byteToken byte = .literal byte := by
  unfold byteToken
  rw [if_neg, if_neg]
  · rintro rfl
    exact absurd h (by decide)
  · rintro rfl
    exact absurd h (by decide)

theorem byteToken_ascii {c : Char} (hc : IsAscii c) (hstar : c ≠ '*') (hany : c ≠ '?') :
    byteToken (UInt8.ofNat c.toNat) = .literal (UInt8.ofNat c.toNat) := by
  unfold byteToken
  rw [if_neg, if_neg]
  · exact fun heq => hany (@ofNat_ascii_inj c '?' hc (by decide) heq)
  · exact fun heq => hstar (@ofNat_ascii_inj c '*' hc (by decide) heq)

theorem stands_ascii {c : Char} (hc : IsAscii c) {part : Text} (h : ∀ d ∈ part, IsAscii d) :
    Stands (byteToken (UInt8.ofNat c.toNat)) (part.map fun d => UInt8.ofNat d.toNat) ↔
      Stands (charToken c) part := by
  by_cases hstar : c = '*'
  · subst hstar
    exact Iff.rfl
  by_cases hany : c = '?'
  · subst hany
    show (part.map _).length = 1 ↔ part.length = 1
    rw [List.length_map]
  rw [byteToken_ascii hc hstar hany, charToken, if_neg hstar, if_neg hany]
  show part.map _ = [_] ↔ part = [c]
  rw [List.map_eq_singleton_iff]
  constructor
  · rintro ⟨d, rfl, hd⟩
    rw [ofNat_ascii_inj (h d List.mem_cons_self) hc hd]
  · rintro rfl
    exact ⟨c, rfl, rfl⟩

theorem matches_ascii {pattern value : Text} (h : ∀ c ∈ value, IsAscii c) :
    Matches ((asBytes pattern).map byteToken) (asBytes value) ↔ GlobMatches pattern value := by
  unfold GlobMatches
  induction pattern generalizing value with
  | nil => exact matches_nil.trans (asBytes_eq_nil.trans matches_nil.symm)
  | cons c pattern ih =>
    rw [asBytes_cons, List.map_append, List.map_cons, matches_cons]
    by_cases hc : IsAscii c
    · rw [encode_ascii hc, List.map_singleton, List.singleton_append, matches_cons,
        asBytes_ascii h]
      constructor
      · rintro ⟨part, rest, heq, hpart, hrest⟩
        obtain ⟨part, rest, rfl, rfl, rfl⟩ := List.append_eq_map_iff.1 heq
        obtain ⟨hpartAscii, hrestAscii⟩ := List.forall_mem_append.1 h
        rw [← asBytes_ascii hrestAscii] at hrest
        exact ⟨part, rest, rfl, (stands_ascii hc hpartAscii).1 hpart, (ih hrestAscii).1 hrest⟩
      · rintro ⟨part, rest, rfl, hpart, hrest⟩
        obtain ⟨hpartAscii, hrestAscii⟩ := List.forall_mem_append.1 h
        refine ⟨_, _, List.map_append.symm, (stands_ascii hc hpartAscii).2 hpart, ?_⟩
        rw [← asBytes_ascii hrestAscii]
        exact (ih hrestAscii).2 hrest
    · -- neither a byte nor a character of the value is beyond ASCII
      obtain ⟨first, second, more, hencode, ⟨hfirst, -⟩, -⟩ := encode_not_ascii hc
      rw [hencode]
      have hchar : charToken c = .literal c := by
        unfold charToken
        rw [if_neg, if_neg]
        · rintro rfl
          exact hc (by decide)
        · rintro rfl
          exact hc (by decide)
      rw [List.map_cons, List.cons_append, byteToken_large hfirst, hchar, matches_cons]
      constructor
      · rintro ⟨_, rest, heq, rfl, -⟩
        have hmem : first ∈ asBytes value := heq ▸ List.mem_append_left _ List.mem_cons_self
        rw [asBytes_ascii h] at hmem
        obtain ⟨d, hd, rfl⟩ := List.mem_map.1 hmem
        have hlt : d.toNat < 128 := h d hd
        rw [UInt8.toNat_ofNat_of_lt' (show _ < 256 by omega)] at hfirst
        omega
      · rintro ⟨_, rest, rfl, rfl, -⟩
        exact absurd (h c (List.mem_append_left _ List.mem_cons_self)) hc

/-! ## Patterns without a question mark -/

/-- Bytes that begin with those of a character are the bytes of a text that begins with it. -/
theorem asBytes_eq_encode_append {c : Char} {bytes : List UInt8} {value : Text}
    (h : String.utf8EncodeChar c ++ bytes = asBytes value) :
    ∃ rest, value = c :: rest ∧ bytes = asBytes rest := by
  cases value with
  | nil =>
    have hne := @String.utf8EncodeChar_ne_nil c
    exact absurd (List.append_eq_nil_iff.1 h).1 hne
  | cons d rest =>
    rw [asBytes_cons] at h
    have hc := @List.utf8DecodeChar?_utf8Encode_singleton_append bytes.toByteArray c
    have hd := @List.utf8DecodeChar?_utf8Encode_singleton_append (asBytes rest).toByteArray d
    have hbytes : [c].utf8Encode ++ bytes.toByteArray =
        [d].utf8Encode ++ (asBytes rest).toByteArray := by
      simp only [List.utf8Encode, List.flatMap_singleton, ← List.toByteArray_append, h]
    rw [hbytes, hd, Option.some.injEq] at hc
    subst hc
    exact ⟨rest, rfl, List.append_cancel_left h⟩

/-- What is left of a text's bytes: the rest of a character, then a text. -/
theorem asBytes_eq_append {value : Text} {part bytes : List UInt8}
    (h : part ++ bytes = asBytes value) :
    ∃ before rest tails, before ++ rest = value ∧ bytes = tails ++ asBytes rest ∧
      ∀ byte ∈ tails, Tail byte := by
  induction value generalizing part with
  | nil => exact ⟨[], [], [], rfl, (List.append_eq_nil_iff.1 h).2, by simp⟩
  | cons c value ih =>
    obtain ⟨first, more, hencode, -, htails⟩ := encode_eq c
    cases part with
    | nil => exact ⟨[], c :: value, [], rfl, h, by simp⟩
    | cons byte part =>
      rw [asBytes_cons, hencode, List.cons_append, List.cons_append] at h
      rcases List.append_eq_append_iff.1 (List.cons.inj h).2 with
        ⟨tails, rfl, rfl⟩ | ⟨part, rfl, hpart⟩
      · exact ⟨[c], value, tails, rfl, rfl,
          fun byte hbyte => htails byte (List.mem_append_right _ hbyte)⟩
      · obtain ⟨before, rest, tails, rfl, hbytes, htails⟩ := ih hpart.symm
        exact ⟨c :: before, rest, tails, rfl, hbytes, htails⟩

theorem encode_literal {c : Char} (hstar : c ≠ '*') (hany : c ≠ '?') :
    (String.utf8EncodeChar c).map byteToken = (String.utf8EncodeChar c).map Token.literal := by
  by_cases hc : IsAscii c
  · rw [encode_ascii hc, List.map_singleton, List.map_singleton, byteToken_ascii hc hstar hany]
  · obtain ⟨first, second, rest, heq, ⟨hfirst, -⟩, htail⟩ := encode_not_ascii hc
    rw [heq, List.map_cons, List.map_cons, byteToken_large hfirst]
    exact congrArg _ (List.map_congr_left fun byte hbyte => byteToken_large (htail byte hbyte).1)

theorem encode_star : (String.utf8EncodeChar '*').map byteToken = [.star] := rfl

/-- The tokens of a pattern without question marks, at its first character. -/
theorem tokens_cons {c : Char} {pattern : Text} (hpattern : '?' ∉ c :: pattern) :
    (asBytes (c :: pattern)).map byteToken =
      (if c = '*' then [.star] else (String.utf8EncodeChar c).map Token.literal) ++
        (asBytes pattern).map byteToken := by
  rw [asBytes_cons, List.map_append]
  split_ifs with hc
  · rw [hc, encode_star]
  · rw [encode_literal hc fun hany => hpattern (hany ▸ List.mem_cons_self)]

/-- Without question marks, what matches after the rest of a character matches without it. -/
theorem matches_resume {pattern value : Text} {tails : List UInt8} (hpattern : '?' ∉ pattern)
    (htails : ∀ byte ∈ tails, Tail byte)
    (h : Matches ((asBytes pattern).map byteToken) (tails ++ asBytes value)) :
    Matches ((asBytes pattern).map byteToken) (asBytes value) := by
  induction pattern generalizing tails with
  | nil => exact matches_nil.2 (List.append_eq_nil_iff.1 (matches_nil.1 h)).2
  | cons c pattern ih =>
    have hrest : '?' ∉ pattern := fun hmem => hpattern (List.mem_cons_of_mem _ hmem)
    rw [tokens_cons hpattern] at h ⊢
    split_ifs at h ⊢ with hc
    · obtain ⟨part, rest, heq, -, h⟩ := matches_cons.1 h
      rcases List.append_eq_append_iff.1 heq with ⟨tails, rfl, rfl⟩ | ⟨part, rfl, hpart⟩
      · -- the star stands for some of these bytes only
        have hlater := ih hrest (fun byte hbyte =>
          htails byte (List.mem_append_right _ hbyte)) h
        exact matches_cons.2 ⟨[], asBytes value, rfl, trivial, hlater⟩
      · exact matches_cons.2 ⟨part, rest, hpart.symm, trivial, h⟩
    · -- a character does not begin with such a byte
      cases tails with
      | nil => exact h
      | cons byte tails =>
        obtain ⟨rest, heq, -⟩ := matches_literals_append.1 h
        obtain ⟨first, more, hencode, hfirst, -⟩ := encode_eq c
        rw [hencode, List.cons_append, List.cons_append] at heq
        exact absurd ((List.cons.inj heq).1 ▸ htails byte List.mem_cons_self) hfirst

theorem matches_no_question {pattern value : Text} (hpattern : '?' ∉ pattern) :
    Matches ((asBytes pattern).map byteToken) (asBytes value) ↔ GlobMatches pattern value := by
  unfold GlobMatches
  induction pattern generalizing value with
  | nil => exact matches_nil.trans (asBytes_eq_nil.trans matches_nil.symm)
  | cons c pattern ih =>
    have hrest : '?' ∉ pattern := fun hmem => hpattern (List.mem_cons_of_mem _ hmem)
    have hany : c ≠ '?' := fun hany => hpattern (hany ▸ List.mem_cons_self)
    rw [tokens_cons hpattern, List.map_cons, charToken]
    split_ifs with hc
    · rw [List.singleton_append, matches_cons, matches_cons]
      constructor
      · rintro ⟨part, bytes, heq, -, h⟩
        obtain ⟨before, rest, tails, rfl, rfl, htails⟩ := asBytes_eq_append heq
        exact ⟨before, rest, rfl, trivial, (ih hrest).1 (matches_resume hrest htails h)⟩
      · rintro ⟨before, rest, rfl, -, h⟩
        exact ⟨asBytes before, asBytes rest, List.flatMap_append.symm, trivial, (ih hrest).2 h⟩
    · rw [matches_literals_append, matches_cons]
      constructor
      · rintro ⟨bytes, heq, h⟩
        obtain ⟨rest, rfl, rfl⟩ := asBytes_eq_encode_append heq
        exact ⟨[c], rest, rfl, rfl, (ih hrest).1 h⟩
      · rintro ⟨_, rest, rfl, rfl, h⟩
        exact ⟨asBytes rest, rfl, (ih hrest).2 h⟩

/-! ## Names that are not ASCII -/

/-- The names on which every pattern means what it means over characters. -/
theorem wildcardMatches_characters_iff (value : Text) :
    (∀ pattern, wildcardMatches pattern value = true ↔ GlobMatches pattern value) ↔
      ∀ c ∈ value, IsAscii c := by
  constructor
  · intro h
    -- as many question marks as there are characters
    have hchars : GlobMatches (List.replicate value.length '?') value := by
      unfold GlobMatches
      rw [List.map_replicate]
      exact matches_any_iff.2 rfl
    have hbytes := wildcardMatches_iff.1 ((h _).2 hchars)
    have hquestion : (asBytes (List.replicate value.length '?')).map byteToken =
        List.replicate value.length .any := by
      rw [asBytes_ascii, List.map_replicate, List.map_replicate]
      · rfl
      · intro c hc
        rw [List.eq_of_mem_replicate hc]
        decide
    rw [hquestion, matches_any_iff] at hbytes
    exact length_asBytes hbytes
  · exact fun h pattern => wildcardMatches_iff.trans (matches_ascii h)

/-- Either the pattern has no question mark or the name is ASCII. -/
def Plain (pattern value : Text) : Prop := '?' ∉ pattern ∨ ∀ c ∈ value, IsAscii c

theorem wildcardMatches_plain {pattern value : Text} (h : Plain pattern value) :
    wildcardMatches pattern value = true ↔ GlobMatches pattern value := by
  refine wildcardMatches_iff.trans ?_
  rcases h with h | h
  · exact matches_no_question h
  · exact matches_ascii h

/-! ## The files found -/

/-- The file's name is of the language. -/
def NameMatches (pattern : Text) (file : DiscoveredFile) : Prop :=
  ∃ name, file.name = some name ∧ GlobMatches pattern name

/-- The paths of the files whose names are of the language. -/
noncomputable def matchingPaths (pattern : Text) (files : List DiscoveredFile) : List Text :=
  (files.filter fun file => @decide (NameMatches pattern file) (Classical.propDecidable _)).map
    DiscoveredFile.path

theorem matchingPaths_eq {pattern : Text} {files : List DiscoveredFile}
    (h : ∀ file ∈ files, ∀ name, file.name = some name → Plain pattern name) :
    matchingPaths pattern files =
      (files.filter fun file => file.name.any (wildcardMatches pattern ·)).map
        DiscoveredFile.path := by
  unfold matchingPaths
  congr 1
  refine List.filter_congr fun file hfile => ?_
  rw [Bool.eq_iff_iff, Option.any_eq_true]
  refine (@decide_eq_true_iff _ (Classical.propDecidable _)).trans ?_
  refine exists_congr fun name => and_congr_right fun hname => ?_
  exact (wildcardMatches_plain (h file hfile name hname)).symm

theorem findMatches_ok {isCancelled : DiscoveredFile → Bool} {pattern : Text} {maxResults : Nat}
    {found output : List Text} {files : List DiscoveredFile} (hfound : found.length < maxResults)
    (h : findMatches isCancelled pattern maxResults found files = .ok output) :
    output = (found ++ (files.filter fun file =>
      file.name.any (wildcardMatches pattern ·)).map DiscoveredFile.path).take maxResults := by
  induction files generalizing found with
  | nil =>
    cases h
    rw [List.filter_nil, List.map_nil, List.append_nil,
      List.take_of_length_le (Nat.le_of_lt hfound)]
  | cons file files ih =>
    simp only [findMatches] at h
    split_ifs at h with hcancel hmatches hlength
    · cases h
      rw [List.filter_cons, if_pos hmatches, List.map_cons,
        List.append_cons found file.path (List.map _ _), ← hlength, List.take_left]
    · rw [List.filter_cons, if_pos hmatches, List.map_cons]
      have hlt : (found ++ [file.path]).length < maxResults := by
        rw [List.length_append, List.length_singleton] at hlength ⊢
        omega
      rw [ih hlt h, List.append_assoc]
      rfl
    · rw [List.filter_cons, if_neg hmatches]
      exact ih hfound h

theorem findMatches_returns {isCancelled : DiscoveredFile → Bool} {pattern : Text}
    {maxResults : Nat} {found : List Text} {files : List DiscoveredFile}
    (h : ∀ file ∈ files, isCancelled file = false) :
    ∃ output, findMatches isCancelled pattern maxResults found files = .ok output := by
  induction files generalizing found with
  | nil => exact ⟨found, rfl⟩
  | cons file files ih =>
    obtain ⟨hfile, hfiles⟩ := List.forall_mem_cons.1 h
    simp only [findMatches, hfile, Bool.false_eq_true, if_false]
    split_ifs
    · exact ⟨_, rfl⟩
    · exact ih hfiles
    · exact ih hfiles

theorem findFiles_ok {discover : Text → Nat → Except ToolError Discovered}
    {isCancelled : DiscoveredFile → Bool} {args : FindArgs} {output : DiscoveryOutput}
    (h : findFiles discover isCancelled args = .ok output) :
    ∃ discovered, discover args.path args.maxDepth = .ok discovered ∧
      output.found = ((discovered.files.filter fun file =>
        file.name.any (wildcardMatches args.pattern ·)).map DiscoveredFile.path).take
          args.maxResults := by
  unfold findFiles at h
  simp only [bind_eq_ok, ensure_eq_ok, pure_eq_ok] at h
  obtain ⟨_, -, _, -, _, ⟨hpositive, -⟩, _, -, discovered, hdiscovered, found, hfound, rfl⟩ := h
  exact ⟨discovered, hdiscovered, findMatches_ok hpositive hfound⟩

/-- What the tool checks of its arguments. -/
structure ValidArgs (args : FindArgs) : Prop where
  path : args.path ≠ []
  pattern : args.pattern ≠ [] ∧ args.pattern.length ≤ MAX_FIND_PATTERN_CHARS
  maxResults : 1 ≤ args.maxResults ∧ args.maxResults ≤ MAX_FIND_RESULTS
  maxDepth : args.maxDepth ≤ MAX_WALK_DEPTH

theorem validateRequiredText_ok {value : Text} {maxChars : Option Nat} {name : String}
    (hvalue : value ≠ []) (hmax : ∀ max ∈ maxChars, value.length ≤ max) :
    validateRequiredText value maxChars name = .ok () := by
  unfold validateRequiredText
  rw [(ensure_eq_ok (u := ())).2 hvalue]
  cases maxChars with
  | none => rfl
  | some max => exact ensure_eq_ok.2 (hmax max rfl)

theorem findFiles_returns {discover : Text → Nat → Except ToolError Discovered}
    {isCancelled : DiscoveredFile → Bool} {args : FindArgs} {discovered : Discovered}
    (hargs : ValidArgs args) (hdiscovered : discover args.path args.maxDepth = .ok discovered)
    (hcancel : ∀ file ∈ discovered.files, isCancelled file = false) :
    ∃ output, findFiles discover isCancelled args = .ok output := by
  obtain ⟨found, hfound⟩ :=
    @findMatches_returns isCancelled args.pattern args.maxResults [] _ hcancel
  have hpath := @validateRequiredText_ok _ none "path" hargs.path (by simp)
  have hpattern := @validateRequiredText_ok _ (some MAX_FIND_PATTERN_CHARS) "pattern"
    hargs.pattern.1 fun _ hmax => Option.mem_some.1 hmax ▸ hargs.pattern.2
  unfold findFiles
  rw [hpath, hpattern, (ensure_eq_ok (u := ())).2 hargs.maxResults,
    (ensure_eq_ok (u := ())).2 hargs.maxDepth]
  simp only [bind_eq_ok, pure_eq_ok]
  exact ⟨_, (), trivial, (), trivial, (), trivial, (), trivial, discovered, hdiscovered, found,
    hfound, rfl⟩

end Find

end Emelex
