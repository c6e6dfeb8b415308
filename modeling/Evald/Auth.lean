import Evald.Lib.Sha256
import Evald.Lib.Trim
import Evald.Lib.Utf8

/-! # The bearer gate

Tokens come from the command line and from a file, and a request shows one in its
`Authorization` header.  Both sides are trimmed and filtered on their own; what passes is
exactly what was configured (`check_exact`).  Digests are compared, never tokens, and the
hash is a parameter.
-/

namespace Evald

open Evald.Lib

inductive AuthError where
  | tokenTooShort (len : Nat)
  | nonAsciiToken
  | noTokens
  | file (path source : String)
  deriving DecidableEq

/-- The digests a request's token must be among; `none` is no gate. -/
structure Auth where
  tokens : Option (List (List UInt8)) := none
  deriving DecidableEq

namespace Auth

def minTokenLen : Nat := 16

def disabled : Auth := {}

/-- Printable ASCII without the space. -/
def isAsciiGraphic (b : UInt8) : Bool := 0x21 ≤ b && b ≤ 0x7E

/-- A set holds each digest once. -/
def insertDigest (set : List (List UInt8)) (digest : List UInt8) : List (List UInt8) :=
  if digest ∈ set then set else set ++ [digest]

variable (sha256 : List UInt8 → List UInt8)

/-- The digests of the tokens, after those of `set`. -/
def collectTokens (set : List (List UInt8)) : List String → Except AuthError (List (List UInt8))
  | [] => .ok set
  | tok :: rest =>
    let tok := trim tok
    if tok = "" then collectTokens set rest
    else if !(utf8 tok).all isAsciiGraphic then .error .nonAsciiToken
    else if (utf8 tok).length < minTokenLen then .error (.tokenTooShort (utf8 tok).length)
    else collectTokens (insertDigest set (sha256 (utf8 tok))) rest

def fromTokens (tokens : List String) : Except AuthError Auth :=
  match collectTokens sha256 [] tokens with
  | .error e => .error e
  | .ok set => if set.isEmpty then .error .noTokens else .ok { tokens := some set }

/-- One token a line; blank lines and comments are left out. -/
def parseTokenFile (text : String) : List String :=
  ((lines text).map trim).filter (fun l => l ≠ "" && !startsWith l "#")

/-- The gate of the inline tokens and of a token file; `read` is the text of a file, or why
it cannot be read. -/
def fromSources (read : String → Except String String) (inline : List String)
    (file : Option String) : Except AuthError Auth :=
  let tokens := (inline.map trim).filter (· ≠ "")
  let file := file.filter (· ≠ "")
  if tokens.isEmpty && file.isNone then .ok disabled
  else
    match file with
    | none => fromTokens sha256 tokens
    | some path =>
      match read path with
      | .error source => .error (.file path source)
      | .ok text => fromTokens sha256 (tokens ++ parseTokenFile text)

/-- The token of a `Bearer` header. -/
def bearerToken (authorization : Option String) : Option String :=
  match authorization with
  | none => none
  | some value =>
    match splitOnce (trim value) ' ' with
    | none => none
    | some (scheme, token) =>
      if !eqIgnoreAsciiCase scheme "bearer" then none
      else if trim token = "" then none else some (trim token)

def check (auth : Auth) (authorization : Option String) : Bool :=
  match auth.tokens with
  | none => true
  | some set =>
    match bearerToken authorization with
    | some tok => decide (sha256 (utf8 tok) ∈ set)
    | none => false

/-! ## What is configured -/

/-- No source is given: only blank placeholders, and no path or an empty one. -/
def NoSource (inline : List String) (file : Option String) : Prop :=
  (∀ s ∈ inline, trim s = "") ∧ (file = none ∨ file = some "")

/-- A token of the configuration: a trimmed inline token that is not blank, or a trimmed line
of the file that is neither blank nor a comment. -/
def Configured (read : String → Except String String) (inline : List String)
    (file : Option String) (token : String) : Prop :=
  token ≠ "" ∧ ((∃ s ∈ inline, trim s = token) ∨
    ∃ path text, file = some path ∧ path ≠ "" ∧ read path = .ok text ∧
      ∃ line ∈ lines text, trim line = token ∧ startsWith token "#" = false)

/-- A header that shows the token. -/
def Shows (header : Option String) (token : String) : Prop :=
  ∃ value scheme rest, header = some value ∧ trim value = scheme ++ " " ++ rest ∧
    eqIgnoreAsciiCase scheme "bearer" = true ∧ trim rest = token

/-! ## The request -/

/-- A scheme that reads `bearer` has no space in it. -/
theorem not_mem_of_bearer {scheme : String} (bearer : eqIgnoreAsciiCase scheme "bearer" = true) :
    ' ' ∉ scheme.toList := by
  intro member
  have same : asciiLowercase scheme = asciiLowercase "bearer" := of_decide_eq_true bearer
  have characters := congrArg String.toList same
  unfold asciiLowercase at characters
  rw [String.toList_ofList, String.toList_ofList] at characters
  have lowered : (' ' : Char).toLower ∈ scheme.toList.map Char.toLower :=
    List.mem_map_of_mem member
  rw [characters] at lowered
  exact absurd lowered (by decide)

theorem bearerToken_iff {header : Option String} {token : String} :
    bearerToken header = some token ↔ Shows header token ∧ token ≠ "" := by
  constructor
  · intro read
    unfold bearerToken at read
    split at read
    · cases read
    · next value =>
      split at read
      · cases read
      · next scheme rest parts =>
        split at read
        · cases read
        · next bearer =>
          split at read
          · cases read
          · next nonblank =>
            cases read
            obtain ⟨split, -⟩ := splitOnce_eq_some.mp parts
            refine ⟨⟨value, scheme, rest, rfl, ?_, by simpa using bearer, rfl⟩, nonblank⟩
            rw [← String.toList_inj, split]
            simp [String.toList_append]
  · intro ⟨⟨value, scheme, rest, isValue, split, bearer, isToken⟩, nonblank⟩
    have parts : splitOnce (trim value) ' ' = some (scheme, rest) := by
      rw [splitOnce_eq_some, split]
      exact ⟨by simp [String.toList_append], not_mem_of_bearer bearer⟩
    rw [isValue, bearerToken]
    simp only [parts, bearer, Bool.not_true, Bool.false_eq_true, if_false, isToken, nonblank]

/-- White space is not among the graphic characters. -/
theorem plain_of_graphic {token : String} {c : Char}
    (graphic : (utf8 token).all isAsciiGraphic = true) (member : c ∈ token.toList) :
    isWhitespace c = false := by
  have bytes (b : UInt8) (inside : b ∈ utf8 token) : 0x21 ≤ b.toNat ∧ b.toNat ≤ 0x7E := by
    have shown := List.all_eq_true.mp graphic b inside
    unfold isAsciiGraphic at shown
    rw [Bool.and_eq_true, decide_eq_true_eq, decide_eq_true_eq] at shown
    exact ⟨UInt8.le_iff_toNat_le.mp shown.1, UInt8.le_iff_toNat_le.mp shown.2⟩
  have ascii (b : UInt8) (inside : b ∈ utf8 token) : b < 128 := by
    have high := (bytes b inside).2
    rw [UInt8.lt_iff_toNat_lt]
    show b.toNat < 128
    omega
  obtain ⟨inside, small⟩ := mem_utf8_of_ascii ascii member
  have value : (UInt8.ofNat c.toNat).toNat = c.toNat := UInt8.toNat_ofNat_of_lt (by
    show c.toNat < 256
    omega)
  have range := bytes _ inside
  rw [value] at range
  unfold isWhitespace
  simp only [Bool.or_eq_false_iff, Bool.and_eq_false_iff, decide_eq_false_iff_not]
  omega

/-- A graphic token, sent behind the scheme, is shown. -/
theorem shows_bearer {token : String} (nonblank : token ≠ "")
    (graphic : (utf8 token).all isAsciiGraphic = true) :
    Shows (some ("Bearer " ++ token)) token := by
  have plain (c : Char) (member : c ∈ token.toList) := plain_of_graphic graphic member
  have trimmed : Trimmed ("Bearer " ++ token).toList := by
    constructor
    · intro c first
      have same : c = 'B' := by simpa using first.symm
      rw [same]
      rfl
    · intro c last
      rw [String.toList_append, List.getLast?_append_of_ne_nil] at last
      · exact plain c (List.mem_of_getLast? last)
      · intro empty
        exact nonblank (String.toList_eq_nil_iff.mp empty)
  refine ⟨_, "Bearer", token, rfl, ?_, by decide, trim_of_trimmed (trimmed_of_all plain)⟩
  rw [trim_of_trimmed trimmed, ← String.toList_inj]
  simp [String.toList_append]

/-! ## The configuration -/

/-- A token the gate takes. -/
def Usable (token : String) : Prop :=
  (utf8 token).all isAsciiGraphic = true ∧ minTokenLen ≤ (utf8 token).length

variable {sha256} {read : String → Except String String} {inline : List String}
  {file : Option String}

theorem mem_insertDigest {set : List (List UInt8)} {digest d : List UInt8} :
    d ∈ insertDigest set digest ↔ d ∈ set ∨ d = digest := by
  unfold insertDigest
  split
  · next known =>
    constructor
    · exact .inl
    · rintro (member | rfl)
      · exact member
      · exact known
  · simp

/-- What is collected: the digest of every token that is not blank, and each is usable. -/
theorem collectTokens_ok {tokens : List String} {set set' : List (List UInt8)}
    (collected : collectTokens sha256 set tokens = .ok set') :
    (∀ d, d ∈ set' ↔ d ∈ set ∨ ∃ tok ∈ tokens, trim tok ≠ "" ∧ d = sha256 (utf8 (trim tok))) ∧
      ∀ tok ∈ tokens, trim tok ≠ "" → Usable (trim tok) := by
  induction tokens generalizing set with
  | nil =>
    cases collected
    simp
  | cons tok rest inductionHypothesis =>
    unfold collectTokens at collected
    by_cases blank : trim tok = ""
    · simp only [blank, if_true] at collected
      obtain ⟨digests, usable⟩ := inductionHypothesis collected
      refine ⟨fun d => ?_, ?_⟩
      · rw [digests d]
        simp [blank]
      · rw [List.forall_mem_cons]
        exact ⟨fun nonblank => absurd blank nonblank, usable⟩
    · simp only [blank, if_false] at collected
      split at collected
      · cases collected
      · next graphic =>
        split at collected
        · cases collected
        · next long =>
          obtain ⟨digests, usable⟩ := inductionHypothesis collected
          refine ⟨fun d => ?_, ?_⟩
          · rw [digests d, mem_insertDigest]
            simp [blank, or_assoc]
          · rw [List.forall_mem_cons]
            exact ⟨fun _ => ⟨by simpa using graphic, Nat.le_of_not_lt long⟩, usable⟩

theorem fromTokens_ok {tokens : List String} {auth : Auth}
    (built : fromTokens sha256 tokens = .ok auth) :
    ∃ set, auth.tokens = some set ∧ collectTokens sha256 [] tokens = .ok set ∧ set ≠ [] := by
  unfold fromTokens at built
  split at built
  · cases built
  · next set collected =>
    split at built
    · cases built
    · next holds =>
      cases built
      exact ⟨set, rfl, collected, by simpa using holds⟩

/-- The inline tokens that are not blank. -/
theorem mem_inlineTokens {token : String} :
    token ∈ (inline.map trim).filter (· ≠ "") ↔ token ≠ "" ∧ ∃ s ∈ inline, trim s = token := by
  rw [List.mem_filter, List.mem_map, decide_eq_true_eq, and_comm]

theorem mem_parseTokenFile {text token : String} :
    token ∈ parseTokenFile text ↔
      token ≠ "" ∧ ∃ line ∈ lines text, trim line = token ∧ startsWith token "#" = false := by
  unfold parseTokenFile
  rw [List.mem_filter, List.mem_map]
  simp only [Bool.and_eq_true, decide_eq_true_eq, Bool.not_eq_true']
  constructor
  · rintro ⟨⟨line, listed, same⟩, nonblank, plain⟩
    exact ⟨nonblank, line, listed, same, plain⟩
  · rintro ⟨nonblank, line, listed, same, plain⟩
    exact ⟨⟨line, listed, same⟩, nonblank, plain⟩

theorem noSource_iff : NoSource inline file ↔
    (inline.map trim).filter (· ≠ "") = [] ∧ file.filter (· ≠ "") = none := by
  have blank : (∀ s ∈ inline, trim s = "") ↔ (inline.map trim).filter (· ≠ "") = [] := by
    simp [List.filter_eq_nil_iff]
  have noFile : (file = none ∨ file = some "") ↔ file.filter (· ≠ "") = none := by
    cases file <;> simp
  rw [NoSource, blank, noFile]

/-- Where a source is given the gate is that of the configured tokens, or there is none. -/
theorem fromSources_cases (source : ¬ NoSource inline file) :
    (∃ path why, fromSources sha256 read inline file = .error (.file path why)) ∨
      ∃ tokens, fromSources sha256 read inline file = fromTokens sha256 tokens ∧
        ∀ token, token ∈ tokens ↔ Configured read inline file token := by
  rw [noSource_iff] at source
  have asked : (((inline.map trim).filter (· ≠ "")).isEmpty && (file.filter (· ≠ "")).isNone) =
      false := by
    rw [Bool.and_eq_false_iff]
    by_cases blank : (inline.map trim).filter (· ≠ "") = []
    · right
      exact Option.isNone_eq_false_iff.mpr
        (Option.isSome_iff_ne_none.mpr (fun noFile => source ⟨blank, noFile⟩))
    · left
      exact List.isEmpty_eq_false_iff.mpr blank
  unfold fromSources
  simp only [asked, Bool.false_eq_true, if_false]
  -- without a file the inline tokens are all there is; a file adds its own lines or fails
  cases given : file.filter (· ≠ "") with
  | none =>
    right
    refine ⟨_, rfl, fun token => ?_⟩
    have noFile : ∀ path, file = some path → path = "" := by
      intro path isPath
      rw [isPath, Option.filter_eq_none_iff] at given
      simpa using given path rfl
    rw [mem_inlineTokens, Configured]
    refine and_congr_right' ⟨.inl, ?_⟩
    rintro (known | ⟨path, text, isPath, nonblank, -⟩)
    · exact known
    · exact absurd (noFile path isPath) nonblank
  | some path =>
    obtain ⟨isPath, nonblank⟩ := Option.filter_eq_some_iff.mp given
    cases isText : read path with
    | error why => exact .inl ⟨path, why, by simp only [isText]⟩
    | ok text =>
      right
      refine ⟨_, by simp only [isText]; rfl, fun token => ?_⟩
      rw [List.mem_append, mem_inlineTokens, mem_parseTokenFile, Configured, ← and_or_left]
      refine and_congr_right' (or_congr_right ?_)
      constructor
      · intro inFile
        exact ⟨path, text, isPath, by simpa using nonblank, isText, inFile⟩
      · rintro ⟨path', text', isPath', -, isText', inFile⟩
        rw [isPath, Option.some.injEq] at isPath'
        rw [← isPath', isText] at isText'
        cases isText'
        exact inFile

theorem Configured.trimmed {token : String} (configured : Configured read inline file token) :
    trim token = token := by
  obtain ⟨-, ⟨s, -, rfl⟩ | ⟨path, text, -, -, -, line, -, rfl, -⟩⟩ := configured
  · exact trim_trim s
  · exact trim_trim line

/-- An armed gate holds the digests of the configured tokens, and each is usable. -/
theorem fromSources_ok {auth : Auth} (source : ¬ NoSource inline file)
    (built : fromSources sha256 read inline file = .ok auth) :
    ∃ set, auth.tokens = some set ∧
      (∀ d, d ∈ set ↔ ∃ token, Configured read inline file token ∧ d = sha256 (utf8 token)) ∧
      ∀ token, Configured read inline file token → Usable token := by
  obtain ⟨path, why, failed⟩ | ⟨tokens, made, configured⟩ := fromSources_cases source
  · rw [failed] at built
    cases built
  · rw [made] at built
    obtain ⟨set, isSet, collected, -⟩ := fromTokens_ok built
    obtain ⟨digests, usable⟩ := collectTokens_ok collected
    refine ⟨set, isSet, fun d => ?_, fun token isToken => ?_⟩
    · rw [digests d]
      simp only [List.not_mem_nil, false_or]
      constructor
      · rintro ⟨token, listed, nonblank, rfl⟩
        have isToken := (configured token).mp listed
        exact ⟨token, isToken, by rw [isToken.trimmed]⟩
      · rintro ⟨token, isToken, rfl⟩
        refine ⟨token, (configured token).mpr isToken, ?_, by rw [isToken.trimmed]⟩
        rw [isToken.trimmed]
        exact isToken.1
    · have sent := usable token ((configured token).mpr isToken)
      rw [isToken.trimmed] at sent
      exact sent isToken.1

/-- An armed gate holds a digest. -/
theorem some_of_fromSources {auth : Auth} {set : List (List UInt8)}
    (source : ¬ NoSource inline file)
    (built : fromSources sha256 read inline file = .ok auth) (isSet : auth.tokens = some set) :
    ∃ d, d ∈ set := by
  obtain ⟨path, why, failed⟩ | ⟨tokens, made, -⟩ := fromSources_cases source
  · rw [failed] at built
    cases built
  · rw [made] at built
    obtain ⟨set', isSet', -, holds⟩ := fromTokens_ok built
    rw [isSet'] at isSet
    cases isSet
    exact List.exists_mem_of_ne_nil _ holds

theorem disabled_of_noSource {auth : Auth} (source : NoSource inline file)
    (built : fromSources sha256 read inline file = .ok auth) : auth = disabled := by
  obtain ⟨blank, noFile⟩ := noSource_iff.mp source
  unfold fromSources at built
  simp only [blank, noFile, List.isEmpty_nil, Option.isNone_none, Bool.and_self, if_true] at built
  exact (Except.ok.inj built).symm

/-- Equal digests are equal tokens, so the gate compares what is shown with what is
configured. -/
theorem check_of_source {auth : Auth} {header : Option String}
    (injective : Function.Injective sha256) (source : ¬ NoSource inline file)
    (built : fromSources sha256 read inline file = .ok auth) :
    check sha256 auth header = true ↔
      ∃ token, Configured read inline file token ∧ Shows header token := by
  obtain ⟨set, isSet, digests, -⟩ := fromSources_ok source built
  unfold check
  rw [isSet]
  constructor
  · intro passed
    cases shown : bearerToken header with
    | none =>
      simp [shown] at passed
    | some token =>
      simp only [shown, decide_eq_true_eq] at passed
      obtain ⟨token', isToken, same⟩ := (digests _).mp passed
      rw [utf8_inj (injective same)] at shown
      exact ⟨token', isToken, (bearerToken_iff.mp shown).1⟩
  · intro ⟨token, isToken, shown⟩
    rw [bearerToken_iff.mpr ⟨shown, isToken.1⟩]
    simp only [decide_eq_true_eq]
    exact (digests _).mpr ⟨token, isToken, rfl⟩

/-- The gate of a configuration that is taken lets through what shows a configured token, or
everything where no source is given; a configured token shows itself behind the scheme; and a
source without a usable token is not taken. -/
theorem check_exact (injective : Function.Injective sha256) :
    (∀ auth, fromSources sha256 read inline file = .ok auth →
      (∀ header, check sha256 auth header = true ↔ NoSource inline file ∨
        ∃ token, Configured read inline file token ∧ Shows header token) ∧
      ∀ token, Configured read inline file token →
        check sha256 auth (some ("Bearer " ++ token)) = true) ∧
    (¬ NoSource inline file → (∀ token, Configured read inline file token → ¬ Usable token) →
      ∃ error, fromSources sha256 read inline file = .error error) := by
  constructor
  · intro auth built
    have passes (header : Option String) : check sha256 auth header = true ↔
        NoSource inline file ∨ ∃ token, Configured read inline file token ∧ Shows header token := by
      by_cases source : NoSource inline file
      · rw [disabled_of_noSource source built]
        exact ⟨fun _ => .inl source, fun _ => rfl⟩
      · rw [check_of_source injective source built]
        exact ⟨.inr, fun shown => shown.resolve_left source⟩
    refine ⟨passes, fun token isToken => (passes _).mpr ?_⟩
    by_cases source : NoSource inline file
    · exact .inl source
    · obtain ⟨-, -, -, usable⟩ := fromSources_ok source built
      exact .inr ⟨token, isToken, shows_bearer isToken.1 (usable token isToken).1⟩
  · intro source unusable
    cases built : fromSources sha256 read inline file with
    | error e => exact ⟨e, rfl⟩
    | ok auth =>
      obtain ⟨set, isSet, digests, usable⟩ := fromSources_ok source built
      obtain ⟨d, member⟩ := some_of_fromSources source built isSet
      obtain ⟨token, isToken, -⟩ := (digests d).mp member
      exact absurd (usable token isToken) (unusable token isToken)

/-- A hash that is SHA-256 on one text and keeps all others apart from it. -/
def hashAt (text bytes : List UInt8) : List UInt8 :=
  if bytes = text then Lib.sha256 bytes else List.replicate 33 0 ++ bytes

theorem hashAt_injective {text : List UInt8} (short : (Lib.sha256 text).length = 32) :
    Function.Injective (hashAt text) := by
  intro first second same
  unfold hashAt at same
  split at same
  · next isText =>
    split at same
    · next isText' => rw [isText, isText']
    · have lengths := congrArg List.length same
      rw [isText, short, List.length_append, List.length_replicate] at lengths
      omega
  · split at same
    · next isText' =>
      have lengths := congrArg List.length same
      rw [isText', short, List.length_append, List.length_replicate] at lengths
      omega
    · exact List.append_cancel_left same

theorem check_exact_oneToken :
    let sha256 := hashAt (utf8 "alice-token-0123456789")
    let read := fun _ => .error "no such file"
    ∃ auth, fromSources sha256 read ["", " alice-token-0123456789 "] none = .ok auth ∧
      auth ≠ disabled ∧ ∀ header, check sha256 auth header = true ↔
        NoSource ["", " alice-token-0123456789 "] none ∨ ∃ token,
          Configured read ["", " alice-token-0123456789 "] none token ∧ Shows header token := by
  intro sha256 read
  have injective : Function.Injective sha256 := hashAt_injective (by decide)
  have built : fromSources sha256 read ["", " alice-token-0123456789 "] none =
      .ok { tokens := some [Lib.sha256 (utf8 "alice-token-0123456789")] } := by
    decide +kernel
  exact ⟨_, built, by simp [disabled], ((check_exact injective).1 _ built).1⟩

end Auth

end Evald
