import Kvist.Galla.Enforcement
import Kvist.Galla.OriginProperties

/-!
# Where the network guard connects to

The URL that is compared with the policy has the host and the port of the request line, unless the
authority of a plain request begins with a colon or with a bracket. There the URL is read with
another host than the one that is connected to.
-/

set_option autoImplicit false

namespace Kvist.Galla

open Text Paths Address

theorem toLower_eq_of_no_letter {character lowered : Char} (same : character.toLower = lowered)
    (other : ¬('a' ≤ lowered ∧ lowered ≤ 'z')) : character = lowered := by
  delta Char.toLower at same
  split at same
  · rename_i upper
    exfalso
    apply other
    rw [← same]
    simp only [Char.le_def, UInt32.le_iff_toNat_le, UInt32.toNat_add, UInt32.toNat_sub, ge_iff_le] at upper ⊢
    have first : ('A' : Char).val.toNat = 65 := rfl
    have last : ('Z' : Char).val.toNat = 90 := rfl
    have small : ('a' : Char).val.toNat = 97 := rfl
    have end_small : ('z' : Char).val.toNat = 122 := rfl
    omega
  · exact same

theorem isAsciiDigit_iff {character : Char} : isAsciiDigit character = character.isDigit := by
  simp [isAsciiDigit, Char.isDigit, Char.le_def]

theorem decimalValue_toString (value : Nat) : decimalValue (toString value).toList = value := by
  have folded : ∀ (digits : List Char) (start : Nat),
      digits.foldl (fun value digit => value * 10 + (digit.toNat - '0'.toNat)) start =
        Nat.ofDigitChars 10 digits start := by
    intro digits
    induction digits with
    | nil => intro start; rfl
    | cons digit rest ih =>
        intro start
        rw [List.foldl_cons, ih, Nat.ofDigitChars_cons, Nat.mul_comm]
  rw [decimalValue, folded]
  have digits : (toString value).toList = Nat.toDigits 10 value := Nat.toList_repr
  rw [digits, Nat.ofDigitChars_ten_toDigits]

theorem digit_bounds {digit : Char} (decimal : isAsciiDigit digit = true) :
    48 ≤ digit.toNat ∧ digit.toNat ≤ 57 := by
  rw [isAsciiDigit, Bool.and_eq_true, decide_eq_true_eq, decide_eq_true_eq] at decimal
  exact decimal

theorem digitChar_of_digit {digit : Char} (decimal : isAsciiDigit digit = true) :
    digit.toNat - '0'.toNat < 10 ∧ Nat.digitChar (digit.toNat - '0'.toNat) = digit := by
  obtain ⟨low, high⟩ := digit_bounds decimal
  have zero : '0'.toNat = 48 := rfl
  have small : digit.toNat - '0'.toNat < 10 := by omega
  refine ⟨small, Char.toNat_inj.mp ?_⟩
  rw [Nat.toNat_digitChar_of_lt_ten small]
  omega

theorem toString_decimalValue {digits : List Char} (nonempty : digits ≠ [])
    (decimal : ∀ digit ∈ digits, isAsciiDigit digit = true)
    (leading : digits.head? = some '0' → digits.length ≤ 1) :
    (toString (decimalValue digits)).toList = digits := by
  have spelled : ∀ value : Nat, (toString value).toList = Nat.toDigits 10 value :=
    fun _ => Nat.toList_repr
  rw [spelled]
  induction digits using List.reverseRecOn with
  | nil => exact absurd rfl nonempty
  | append_singleton front last ih =>
      obtain ⟨small, same⟩ := digitChar_of_digit (decimal last (by simp))
      have value : decimalValue (front ++ [last]) =
          10 * decimalValue front + (last.toNat - '0'.toNat) := by
        rw [decimalValue, List.foldl_append, Nat.mul_comm]
        rfl
      have single : Nat.toDigits 10 (last.toNat - '0'.toNat) = [last] := by
        rw [Nat.toDigits_of_lt_base small, same]
      rw [value]
      by_cases empty : front = []
      · subst empty
        exact (congrArg (Nat.toDigits 10) (Nat.zero_add _)).trans single
      · have headed : (front ++ [last]).head? = front.head? := List.head?_append_of_ne_nil _ empty
        have long : 1 ≤ front.length := List.length_pos_iff.mpr empty
        have unzeroed : front.head? ≠ some '0' := by
          intro zero
          have short := leading (headed.trans zero)
          rw [List.length_append, List.length_singleton] at short
          omega
        have written := ih empty (fun digit member => decimal digit (List.mem_append_left _ member))
          (fun zero => absurd zero unzeroed)
        have positive : 0 < decimalValue front := by
          rcases Nat.eq_zero_or_pos (decimalValue front) with zero | positive
          · rw [zero, Nat.toDigits_zero] at written
            exact absurd (congrArg List.head? written).symm unzeroed
          · exact positive
        rw [← Nat.toDigits_append_toDigits (by decide) positive small, written, single]

theorem digit_of_mem_toString {value : Nat} {digit : Char}
    (member : digit ∈ (toString value).toList) : isAsciiDigit digit = true := by
  have digits : (toString value).toList = Nat.toDigits 10 value := Nat.toList_repr
  rw [digits] at member
  rw [isAsciiDigit_iff]
  exact Nat.isDigit_of_mem_toDigits (by decide) (by decide) member

theorem absent_of_digits {digits : List Char} {character : Char}
    (all : ∀ digit ∈ digits, isAsciiDigit digit = true)
    (other : isAsciiDigit character = false) : character ∉ digits := by
  intro member
  rw [all character member] at other
  cases other

theorem parseExplicitPort_toString {port : Nat} (small : port ≤ 65535) :
    parseExplicitPort (toString port).toList = .ok port := by
  have nonempty : (toString port).toList ≠ [] := by
    have digits : (toString port).toList = Nat.toDigits 10 port := Nat.toList_repr
    rw [digits]
    exact Nat.toDigits_ne_nil
  have digits : (toString port).toList.all isAsciiDigit = true :=
    List.all_eq_true.mpr fun digit member => digit_of_mem_toString member
  simp only [parseExplicitPort, decimalValue_toString, digits, small, List.isEmpty_eq_false_iff.mpr nonempty]
  rfl

theorem rsplitOnce_append {separator : Char} {before after : List Char} (absent : separator ∉ after) :
    rsplitOnce separator (before ++ separator :: after) = some (before, after) := by
  have reversed : (before ++ separator :: after).reverse =
      after.reverse ++ separator :: before.reverse := by simp
  rw [rsplitOnce, reversed, splitOnce_append (by simpa using absent)]
  simp

theorem rsplitOnce_absent {separator : Char} {text : List Char} (absent : separator ∉ text) :
    rsplitOnce separator text = none := by
  rw [rsplitOnce, splitOnce_absent (by simpa using absent)]
  rfl

theorem stripLeading_of_head {first : Char} {text : List Char} (other : text.head? ≠ some first) :
    stripLeading [first] text = none := by
  cases stripped : stripLeading [first] text with
  | none => rfl
  | some rest =>
      rw [stripLeading_eq_some_iff.mp stripped] at other
      exact absurd rfl other

/-- A host without brackets and colons is read as it stands, in lower case. -/
theorem splitAuthority_plain {host : List Char} {port : Nat} {scheme : Scheme}
    (bracket : host.head? ≠ some '[') (colon : ':' ∉ host) (small : port ≤ 65535) :
    splitAuthority host scheme = .ok (toAsciiLowercase host, scheme.defaultPort) ∧
      (host ≠ [] → splitAuthority (host ++ ':' :: (toString port).toList) scheme =
        .ok (toAsciiLowercase host, port)) := by
  constructor
  · rw [splitAuthority, stripLeading_of_head bracket, rsplitOnce_absent colon]
  · intro nonempty
    have clear := @absent_of_digits (toString port).toList ':'
      (fun digit member => digit_of_mem_toString member) rfl
    have head : (host ++ ':' :: (toString port).toList).head? ≠ some '[' := by
      rw [List.head?_append_of_ne_nil _ nonempty]
      exact bracket
    rw [splitAuthority, stripLeading_of_head head, rsplitOnce_append clear]
    simp only [parseExplicitPort_toString small]
    rfl

theorem splitAuthority_default {host : List Char} {port : Nat} {scheme : Scheme}
    (bracket : host.head? ≠ some '[') (colon : ':' ∉ host) (small : port ≤ 65535)
    (nonempty : host ≠ []) :
    splitAuthority (host ++ if port = scheme.defaultPort then [] else ':' :: (toString port).toList)
      scheme = .ok (toAsciiLowercase host, port) := by
  obtain ⟨plain, explicit⟩ := @splitAuthority_plain _ _ scheme bracket colon small
  split
  · rename_i same
    rw [List.append_nil, same]
    exact plain
  · exact explicit nonempty

theorem Parsed.of_target {scheme : Scheme} {authority path : List Char} {request : Origin}
    (clear : '/' ∉ authority)
    (parsed : parse (scheme.asStr ++ "://".toList ++ authority ++ '/' :: path) = .ok request) :
    request.scheme = scheme ∧
      splitAuthority authority scheme = .ok (request.host, request.port) ∧
      request.path = '/' :: path ∧ validateHost request.host = .ok () ∧
      (scheme = .http → isLoopbackHost request.host = true) := by
  obtain ⟨-, -, rest, same, facts⟩ := parse_ok parsed
  have schemes : request.scheme = scheme ∧ rest = authority ++ '/' :: path := by
    cases scheme <;> cases found : request.scheme <;> rw [found] at same <;>
      simp_all [Scheme.asStr]
  obtain ⟨rfl, rfl⟩ := schemes
  have clearAll : ∀ character ∈ authority, (character != '/') = true := by
    intro character member
    rw [bne_iff_ne]
    exact fun slash => clear (slash ▸ member)
  have taken : (authority ++ '/' :: path).takeWhile (· != '/') = authority := by
    rw [List.takeWhile_append_of_pos clearAll]
    simp
  have dropped : (authority ++ '/' :: path).dropWhile (· != '/') = '/' :: path := by
    rw [List.dropWhile_append_of_pos clearAll]
    simp
  have split := facts.authority
  have written := facts.path
  rw [taken] at split
  rw [if_pos (by simp), dropped] at written
  exact ⟨rfl, split, written, facts.host, facts.loopback⟩

/-- The parts of a plain request's target. -/
structure AbsoluteForm (stripped host : List Char) (port : Nat) (path : List Char) : Prop where
  absolute : ∃ tail, path = '/' :: tail
  nonempty : host ≠ []
  clear : '/' ∉ host
  head : stripped.head? = host.head?
  small : port ≤ 65535
  colon : host.head? ≠ some ':' → ':' ∉ host
  leading : host.head? = some ':' → port = 80

theorem parseUnsigned_small {limit value : Nat} {text : List Char}
    (read : parseUnsigned limit text = some value) : value ≤ limit := by
  simp only [parseUnsigned, Bool.or_eq_true, decide_eq_true_eq] at read
  split at read
  · cases read
  · rename_i accepted
    rw [← Option.some.inj read]
    omega

theorem splitOnce_some {separator : Char} {text before after : List Char}
    (found : splitOnce separator text = some (before, after)) :
    text = before ++ separator :: after ∧ separator ∉ before := by
  induction text generalizing before with
  | nil => cases found
  | cons character rest ih =>
      rw [splitOnce] at found
      split at found
      · rename_i same
        cases found
        exact ⟨by rw [same]; rfl, List.not_mem_nil⟩
      · rename_i other
        rw [Option.map_eq_some_iff] at found
        obtain ⟨⟨front, back⟩, inside, same⟩ := found
        cases same
        obtain ⟨rfl, absent⟩ := ih inside
        refine ⟨rfl, ?_⟩
        rw [List.mem_cons, not_or]
        exact ⟨Ne.symm other, absent⟩

theorem splitOnce_none {separator : Char} {text : List Char}
    (absent : splitOnce separator text = none) : separator ∉ text := by
  intro member
  obtain ⟨before, after, rfl, clear⟩ := List.eq_append_cons_of_mem member
  rw [splitOnce_append clear] at absent
  cases absent

theorem absoluteParts_eq (stripped : List Char) :
    ∃ authority tail, absoluteParts stripped = (authority, '/' :: tail) ∧ '/' ∉ authority ∧
      (authority ≠ [] → stripped.head? = authority.head?) := by
  rw [absoluteParts]
  cases found : splitOnce '/' stripped with
  | none => exact ⟨stripped, [], rfl, splitOnce_none found, fun _ => rfl⟩
  | some pair =>
      obtain ⟨authority, tail⟩ := pair
      obtain ⟨rfl, clear⟩ := splitOnce_some found
      exact ⟨authority, tail, rfl, clear, List.head?_append_of_ne_nil _⟩

theorem parseAbsolute_some {stripped : List Char} {line : ParsedRequestLine}
    (parsed : parseAbsolute stripped = some line) :
    ∃ host port path, line = .httpAbsolute host port path ∧
      AbsoluteForm stripped host port path := by
  obtain ⟨authority, tail, parts, clear, head⟩ := absoluteParts_eq stripped
  rw [parseAbsolute, parts] at parsed
  dsimp only at parsed
  have bare : (if authority.isEmpty = true then none
        else some (ParsedRequestLine.httpAbsolute authority 80 ('/' :: tail))) = some line →
      (authority.head? ≠ some ':' → ':' ∉ authority) →
      ∃ host port path, line = .httpAbsolute host port path ∧
        AbsoluteForm stripped host port path := by
    intro found colon
    split at found
    · cases found
    · rename_i nonempty
      have nonempty : authority ≠ [] := by simpa using nonempty
      exact ⟨_, _, _, (Option.some.inj found).symm, ⟨tail, rfl⟩, nonempty, clear, head nonempty,
        by decide, colon, fun _ => rfl⟩
  cases found : splitOnce ':' authority with
  | none =>
      rw [found] at parsed
      exact bare parsed fun _ => splitOnce_none found
  | some pair =>
      obtain ⟨host, text⟩ := pair
      rw [found] at parsed
      obtain ⟨rfl, absent⟩ := splitOnce_some found
      dsimp only at parsed
      split at parsed
      · rename_i empty
        have empty : host = [] := by simpa using empty
        apply bare parsed
        intro other
        rw [empty] at other
        exact absurd rfl other
      · rename_i nonempty
        have nonempty : host ≠ [] := by simpa using nonempty
        rw [Option.map_eq_some_iff] at parsed
        obtain ⟨port, read, rfl⟩ := parsed
        refine ⟨_, _, _, rfl, ⟨tail, rfl⟩, nonempty, ?_, ?_, parseUnsigned_small read,
          fun _ => absent, ?_⟩
        · exact fun member => clear (List.mem_append_left _ member)
        · rw [head (by simp), List.head?_append_of_ne_nil _ nonempty]
        · exact fun leading => absurd (List.mem_of_mem_head? leading) absent

theorem takeDigits_stop {radix : Nat} {character : Char} {rest : List Char}
    (stops : digitValue radix character = none) :
    takeDigits radix (character :: rest) = ([], character :: rest) := by
  rw [takeDigits, stops]

theorem readNumber_stop {radix maxDigits limit : Nat} {leadingZeros : Bool} {character : Char}
    {rest : List Char} (stops : digitValue radix character = none) :
    readNumber radix maxDigits limit leadingZeros (character :: rest) = none := by
  simp [readNumber, takeDigits_stop stops]

theorem readIpv4_stop {character : Char} {rest : List Char}
    (stops : digitValue 10 character = none) : readIpv4 (character :: rest) = none := by
  simp [readIpv4, readNumber_stop stops]

/-- What begins with neither a digit nor a colon is no address. -/
theorem parseIpAddress_stop {character : Char} {rest : List Char}
    (decimal : digitValue 10 character = none) (hexadecimal : digitValue 16 character = none)
    (other : character ≠ ':') : parseIpAddress (character :: rest) = none := by
  have groups : readGroups 8 true (character :: rest) = ([], false, character :: rest) := by
    simp [readGroups, readIpv4_stop decimal, readNumber_stop hexadecimal]
  simp [parseIpAddress, readIpv4_stop decimal, readIpv6, groups, readGiven, other]

theorem takeDigits_step {radix digit : Nat} {character : Char} {rest : List Char}
    (reads : digitValue radix character = some digit) :
    takeDigits radix (character :: rest) =
      (digit :: (takeDigits radix rest).1, (takeDigits radix rest).2) := by
  rw [takeDigits, reads]

theorem readNumber_some {radix maxDigits limit : Nat} {leadingZeros : Bool} {text rest : List Char}
    {digits : List Nat} (taken : takeDigits radix text = (digits, rest))
    (accepted : (digits.isEmpty || maxDigits < digits.length ||
      (!leadingZeros && digits.head? == some 0 && 1 < digits.length) ||
      limit < ofDigits radix digits) = false) :
    readNumber radix maxDigits limit leadingZeros text = some (ofDigits radix digits, rest) := by
  rw [readNumber, taken]
  simp only [accepted]
  rfl

/-- What begins with a number and a dot is no IPv6 address. -/
theorem readIpv6_dotted {rest : List Char}
    (other : readIpv4 ('1' :: '2' :: '7' :: '.' :: rest) = none) :
    readIpv6 ('1' :: '2' :: '7' :: '.' :: rest) = none := by
  have digits : takeDigits 16 ('1' :: '2' :: '7' :: '.' :: rest) = ([1, 2, 7], '.' :: rest) := by
    rw [@takeDigits_step _ 1 _ _ (by decide), @takeDigits_step _ 2 _ _ (by decide),
      @takeDigits_step _ 7 _ _ (by decide), takeDigits_stop (by decide)]
  have number : readNumber 16 4 65535 true ('1' :: '2' :: '7' :: '.' :: rest) =
      some (0x127, '.' :: rest) := readNumber_some digits (by decide)
  have groups : readGroups 8 true ('1' :: '2' :: '7' :: '.' :: rest) =
      ([0x127], false, '.' :: rest) := by
    rw [readGroups]
    simp only [if_true, other, number]
    simp [readGroups, readGiven]
  rw [readIpv6, groups]
  simp [readGiven]

theorem digitValue_decimal {radix : Nat} {digit : Char} (decimal : isAsciiDigit digit = true)
    (large : 10 ≤ radix) : ∃ value, digitValue radix digit = some value := by
  have bound := (digit_bounds decimal).2
  rw [isAsciiDigit, Bool.and_eq_true, decide_eq_true_eq, decide_eq_true_eq] at decimal
  refine ⟨digit.toNat - '0'.toNat, ?_⟩
  rw [digitValue, if_pos decimal, Option.filter_some, if_pos]
  have zero : '0'.toNat = 48 := rfl
  rw [decide_eq_true_iff, zero]
  omega

theorem takeDigits_decimal {radix : Nat} {digits : List Char} (large : 10 ≤ radix)
    (decimal : ∀ digit ∈ digits, isAsciiDigit digit = true) :
    ∃ values, takeDigits radix digits = (values, []) := by
  induction digits with
  | nil => exact ⟨[], rfl⟩
  | cons digit rest ih =>
      obtain ⟨value, read⟩ := digitValue_decimal (decimal digit List.mem_cons_self) large
      obtain ⟨values, readRest⟩ := ih fun other member => decimal other (List.mem_cons_of_mem _ member)
      exact ⟨value :: values, by rw [takeDigits_step read, readRest]⟩

theorem readNumber_decimal {radix maxDigits limit : Nat} {leadingZeros : Bool} {digits : List Char}
    (large : 10 ≤ radix) (decimal : ∀ digit ∈ digits, isAsciiDigit digit = true) :
    readNumber radix maxDigits limit leadingZeros digits = none ∨
      ∃ value, readNumber radix maxDigits limit leadingZeros digits = some (value, []) := by
  obtain ⟨values, taken⟩ := takeDigits_decimal large decimal
  rw [readNumber, taken]
  dsimp only
  split
  · exact .inl rfl
  · exact .inr ⟨_, rfl⟩

theorem readIpv4_decimal {digits : List Char}
    (decimal : ∀ digit ∈ digits, isAsciiDigit digit = true) : readIpv4 digits = none := by
  rcases @readNumber_decimal 10 3 255 false _
    (Nat.le_refl 10) decimal with none | ⟨value, some⟩
  · simp [readIpv4, none]
  · simp [readIpv4, some, readGiven]

/-- The groups behind `::`, where they are one and a decimal text. -/
theorem readGroups_one {digits : List Char}
    (decimal : ∀ digit ∈ digits, isAsciiDigit digit = true) :
    readGroups 7 true ('1' :: ':' :: digits) = ([1], false, ':' :: digits) ∨
      ∃ group, readGroups 7 true ('1' :: ':' :: digits) = ([1, group], false, []) := by
  have decimalOne : readNumber 10 3 255 false ('1' :: ':' :: digits) = some (1, ':' :: digits) := by
    apply @readNumber_some _ _ _ _ _ _ [1] _ (by decide)
    rw [@takeDigits_step _ 1 _ _ (by decide), takeDigits_stop (by decide)]
  have hexadecimalOne : readNumber 16 4 65535 true ('1' :: ':' :: digits) =
      some (1, ':' :: digits) := by
    apply @readNumber_some _ _ _ _ _ _ [1] _ (by decide)
    rw [@takeDigits_step _ 1 _ _ (by decide), takeDigits_stop (by decide)]
  have embedded : readIpv4 ('1' :: ':' :: digits) = none := by
    simp [readIpv4, decimalOne, readGiven]
  have first : readGroups 7 true ('1' :: ':' :: digits) =
      (1 :: (readGroups 6 false (':' :: digits)).1, (readGroups 6 false (':' :: digits)).2.1,
        (readGroups 6 false (':' :: digits)).2.2) := by
    rw [readGroups]
    simp only [if_true, embedded, hexadecimalOne]
    simp
  have colon : readGiven ':' (':' :: digits) = some digits := by simp [readGiven]
  rw [first, readGroups]
  rcases @readNumber_decimal 16 4 65535 true _
    (by decide) decimal with none | ⟨value, some⟩
  · left
    simp [colon, readIpv4_decimal decimal, none]
  · right
    refine ⟨value, ?_⟩
    simp [readIpv4_decimal decimal, some, readGroups, readGiven]

/-- Digits behind `::1:` are read as the last group, if they are read. -/
theorem parseIpAddress_grouped {digits : List Char}
    (decimal : ∀ digit ∈ digits, isAsciiDigit digit = true) {address : IpAddress}
    (read : parseIpAddress (':' :: ':' :: '1' :: ':' :: digits) = some address) :
    ∃ group, address = .v6 ⟨[0, 0, 0, 0, 0, 0, 1, group]⟩ := by
  have decimalStop : digitValue 10 ':' = none := by decide
  have hexadecimalStop : digitValue 16 ':' = none := by decide
  have head : readGroups 8 true (':' :: ':' :: '1' :: ':' :: digits) =
      ([], false, ':' :: ':' :: '1' :: ':' :: digits) := by
    simp [readGroups, readIpv4_stop decimalStop, readNumber_stop hexadecimalStop]
  rcases readGroups_one decimal with one | ⟨group, two⟩
  · have groups : readIpv6 (':' :: ':' :: '1' :: ':' :: digits) =
        some (⟨List.replicate 7 0 ++ [1]⟩, ':' :: digits) := by
      rw [readIpv6, head]
      simp [readGiven, one]
    simp [parseIpAddress, readIpv4_stop decimalStop, groups] at read
  · have groups : readIpv6 (':' :: ':' :: '1' :: ':' :: digits) =
        some (⟨List.replicate 6 0 ++ [1, group]⟩, []) := by
      rw [readIpv6, head]
      simp [readGiven, two]
    simp only [parseIpAddress, readIpv4_stop decimalStop, groups] at read
    exact ⟨group, by simpa using read.symm⟩

/-- What a host is resolved as: an address, or a name without regard to case. -/
inductive ConnectTarget where
  | address (address : IpAddress)
  | name (name : List Char)
  deriving DecidableEq, Repr

def connectTarget (host : List Char) : ConnectTarget :=
  match parseIpAddress (toAsciiLowercase host) with
  | some address => .address address
  | none => .name (toAsciiLowercase host)

def ParsedRequestLine.scheme : ParsedRequestLine → Scheme
  | .httpAbsolute _ _ _ => .http
  | .connectTunnel _ _ => .https

/-- The line leads to a declared origin: to its host and port, and to a path within its path. -/
def ConnectsDeclared (policy : OriginPolicy) (line : ParsedRequestLine) : Prop :=
  ∃ origin ∈ policy.allowed, origin.scheme = line.scheme ∧
    connectTarget origin.host = connectTarget line.host ∧ origin.port = line.port ∧
      ∀ path, line.path = some path → pathWithin origin.path path = true

/-- The target of a plain request, behind its scheme. -/
def absoluteTarget (firstLine : List Char) : Option (List Char) :=
  match splitWhitespace firstLine with
  | [method, target, _] =>
      if eqIgnoreAsciiCase method "GET".toList || eqIgnoreAsciiCase method "HEAD".toList then
        stripLeading "http://".toList target
      else none
  | _ => none

/-- The authority of a plain request begins neither with a colon nor with a bracket. -/
def PlainAuthority (firstLine : List Char) : Prop :=
  ∀ stripped, absoluteTarget firstLine = some stripped →
    stripped.head? ≠ some ':' ∧ stripped.head? ≠ some '['

/-- The policies that origins are added to. -/
inductive OriginPolicy.Built : OriginPolicy → Prop where
  | new : Built OriginPolicy.new
  | testLoopback : Built OriginPolicy.testLoopback
  | allow {policy allowed : OriginPolicy} {url : List Char} {origin : Origin} :
      Built policy → parse url = .ok origin → policy.allow origin = .ok allowed → Built allowed

theorem toLower_idempotent (character : Char) : character.toLower.toLower = character.toLower := by
  have last : ('Z' : Char).val.toNat = 90 := rfl
  by_cases upper : character.val ≥ 'A'.val ∧ character.val ≤ 'Z'.val
  · have lowered : character.toLower.val = character.val + ('a'.val - 'A'.val) := by
      delta Char.toLower
      rw [dif_pos upper]
    have beyond : ¬(character.toLower.val ≥ 'A'.val ∧ character.toLower.val ≤ 'Z'.val) := by
      rw [lowered]
      simp only [UInt32.le_iff_toNat_le, UInt32.toNat_add, UInt32.toNat_sub, ge_iff_le] at upper ⊢
      have first : ('A' : Char).val.toNat = 65 := rfl
      have small : ('a' : Char).val.toNat = 97 := rfl
      omega
    exact dif_neg beyond
  · have kept : character.toLower = character := dif_neg upper
    rw [kept, kept]

@[simp] theorem connectTarget_lowercase (host : List Char) :
    connectTarget (toAsciiLowercase host) = connectTarget host := by
  have same : toAsciiLowercase (toAsciiLowercase host) = toAsciiLowercase host := by
    rw [toAsciiLowercase, toAsciiLowercase, List.map_map]
    exact List.map_congr_left fun character _ => toLower_idempotent character
  rw [connectTarget, same, connectTarget]

theorem OriginPolicy.Built.parsed {policy : OriginPolicy} (built : policy.Built) :
    ∀ origin ∈ policy.allowed, ∃ url, parse url = .ok origin := by
  induction built with
  | new => simp [OriginPolicy.new]
  | testLoopback => simp [OriginPolicy.testLoopback]
  | @allow policy allowed url origin _ parsed added ih =>
      simp only [OriginPolicy.allow, bind_unit_ok_iff, pure_eq_ok, Except.ok.injEq] at added
      obtain ⟨-, -, rfl⟩ := added
      intro other member
      rcases List.mem_append.mp member with earlier | last
      · exact ih other earlier
      · rw [List.mem_singleton.mp last]
        exact ⟨url, parsed⟩

theorem guardPolicy_built (sources : List AllowedSource) : (guardPolicy sources).Built := by
  have allowed : ∀ {policy next : OriginPolicy} {url : List Char}, policy.Built →
      policy.allowUrl url = .ok next → next.Built := by
    intro policy next url built added
    obtain ⟨origin, parsed, added⟩ := bind_ok_iff.mp added
    exact .allow built (parseInMode_ok parsed) added
  have kept : ∀ {policy : OriginPolicy} {url : List Char}, policy.Built →
      (allowOrKeep policy url).Built := by
    intro policy url built
    rw [allowOrKeep]
    split
    · rename_i next added
      exact allowed built added
    · exact built
  rw [guardPolicy]
  refine List.foldlRecOn sources _ ?_ ?_
  · split
    · exact .testLoopback
    · exact .new
  · intro policy built source _
    cases source with
    | cargoRegistry name indexOrigin downloadOrigin identity =>
        rw [allowSource]
        split
        · rename_i next added
          exact kept (allowed built added)
        · exact built
    | cargoGit repository revision identity => exact kept built

theorem parseRequestLine_some {firstLine : List Char} {line : ParsedRequestLine}
    (parsed : parseRequestLine firstLine = some line) :
    (absoluteTarget firstLine = none ∧ ∃ target, parseConnect target = some line) ∨
      ∃ stripped, absoluteTarget firstLine = some stripped ∧ parseAbsolute stripped = some line := by
  obtain ⟨method, target, version, pieces⟩ : ∃ method target version,
      splitWhitespace firstLine = [method, target, version] := by
    rw [parseRequestLine] at parsed
    split at parsed
    · rename_i method target version pieces
      exact ⟨method, target, version, pieces⟩
    · cases parsed
  rw [parseRequestLine, pieces] at parsed
  rw [absoluteTarget, pieces]
  dsimp only at parsed ⊢
  split at parsed
  · rename_i connects
    left
    refine ⟨?_, target, parsed⟩
    have lowered : toAsciiLowercase method = toAsciiLowercase "CONNECT".toList := by
      simpa [eqIgnoreAsciiCase] using connects
    have other : (eqIgnoreAsciiCase "CONNECT".toList "GET".toList ||
        eqIgnoreAsciiCase "CONNECT".toList "HEAD".toList) = false := by decide
    rw [eqIgnoreAsciiCase, eqIgnoreAsciiCase, lowered, ← eqIgnoreAsciiCase, ← eqIgnoreAsciiCase,
      other]
    rfl
  · split at parsed
    · rename_i reads
      right
      obtain ⟨stripped, found, absolute⟩ := Option.bind_eq_some_iff.mp parsed
      exact ⟨stripped, by rw [if_pos reads, found], absolute⟩
    · cases parsed

theorem validateConnectHost_ok {host : List Char} (accepted : validateConnectHost host = true) :
    host ≠ [] ∧ '/' ∉ host ∧ ':' ∉ host ∧ host.head? ≠ some '[' := by
  simp only [validateConnectHost, Bool.and_eq_true, Bool.not_eq_true', Bool.or_eq_false_iff,
    List.contains_eq_mem, decide_eq_false_iff_not, List.isEmpty_eq_false_iff,
    List.all_eq_true] at accepted
  obtain ⟨⟨⟨⟨nonempty, ⟨slash, -⟩, -⟩, colon⟩, legal⟩, -⟩ := accepted
  refine ⟨nonempty, slash, colon, ?_⟩
  intro bracket
  exact absurd (legal '[' (List.mem_of_mem_head? bracket)) (by decide)

theorem parseConnect_some {target : List Char} {line : ParsedRequestLine}
    (parsed : parseConnect target = some line) :
    ∃ host port, line = .connectTunnel host port ∧ port ≤ 65535 ∧
      validateConnectHost host = true := by
  rw [parseConnect] at parsed
  split at parsed
  · split at parsed
    · cases parsed
    · split at parsed
      · cases parsed
      · rename_i port read
        split at parsed
        · rename_i accepted
          exact ⟨_, port, (Option.some.inj parsed).symm, parseUnsigned_small read, accepted⟩
        · cases parsed
  · split at parsed
    · rename_i accepted
      exact ⟨_, 443, (Option.some.inj parsed).symm, by decide, accepted⟩
    · cases parsed

theorem authorizesAuthority_some {policy : OriginPolicy} {url : List Char}
    (authorized : policy.authorizesAuthority url = true) : ∃ request, parse url = .ok request ∧
      ∃ allowed ∈ policy.allowed, allowed.sameAuthority request = true := by
  rw [OriginPolicy.authorizesAuthority] at authorized
  split at authorized
  · cases authorized
  · rename_i request parsed
    refine ⟨request, parsed, ?_⟩
    split at authorized
    · exact List.any_eq_true.mp authorized
    · obtain ⟨allowed, member, same⟩ := List.any_eq_true.mp authorized
      exact ⟨allowed, member, (Bool.and_eq_true_iff.mp same).1⟩

theorem https_target (host digits : List Char) :
    "https://".toList ++ host ++ ':' :: digits ++ ['/'] =
      Scheme.https.asStr ++ "://".toList ++ (host ++ ':' :: digits) ++ ['/'] := by
  simp [Scheme.asStr]

theorem http_target (host suffix path : List Char) :
    "http://".toList ++ host ++ suffix ++ path =
      Scheme.http.asStr ++ "://".toList ++ (host ++ suffix) ++ path := by
  simp [Scheme.asStr]

theorem tunnel_declared {policy : OriginPolicy} {host : List Char} {port : Nat}
    (small : port ≤ 65535) (accepted : validateConnectHost host = true)
    (authorized : (ParsedRequestLine.connectTunnel host port).authorized policy = true) :
    ConnectsDeclared policy (.connectTunnel host port) := by
  obtain ⟨nonempty, slash, colon, bracket⟩ := validateConnectHost_ok accepted
  obtain ⟨request, parsed, allowed, member, same⟩ := authorizesAuthority_some authorized
  have clear : '/' ∉ host ++ ':' :: (toString port).toList := by
    have digits := @absent_of_digits (toString port).toList '/'
      (fun digit member => digit_of_mem_toString member) rfl
    simpa [slash] using digits
  have target := congrArg parse (https_target host (toString port).toList)
  obtain ⟨scheme, split, -⟩ := Parsed.of_target clear (target.symm.trans parsed)
  rw [(splitAuthority_plain bracket colon small).2 nonempty] at split
  obtain ⟨hostSame, portSame⟩ := Prod.mk.inj (Except.ok.inj split)
  obtain ⟨allowedScheme, allowedHost, allowedPort⟩ := sameAuthority_iff.mp same
  refine ⟨allowed, member, allowedScheme.trans scheme, ?_, allowedPort.trans portSame.symm, ?_⟩
  · rw [allowedHost, ← hostSame, connectTarget_lowercase]
    rfl
  · intro path none
    cases none

/-- What the policy reads of a plain request that it permits. -/
structure PermittedRequest (policy : OriginPolicy) (host : List Char) (port : Nat)
    (path : List Char) (allowed : Origin) : Prop where
  member : allowed ∈ policy.allowed
  scheme : allowed.scheme = .http
  authority : splitAuthority (host ++ if port = Scheme.http.defaultPort then [] else
    ':' :: (toString port).toList) .http = .ok (allowed.host, allowed.port)
  valid : validateHost allowed.host = .ok ()
  loopback : isLoopbackHost allowed.host = true
  path : pathWithin allowed.path path = true

theorem permitted_request {policy : OriginPolicy} {stripped host path : List Char} {port : Nat}
    (form : AbsoluteForm stripped host port path)
    (authorized : (ParsedRequestLine.httpAbsolute host port path).authorized policy = true) :
    ∃ allowed, PermittedRequest policy host port path allowed := by
  obtain ⟨request, parsed, allowed, member, same, within⟩ := permits_iff.mp authorized
  obtain ⟨tail, rfl⟩ := form.absolute
  have clear : '/' ∉ host ++ if port = Scheme.http.defaultPort then [] else
      ':' :: (toString port).toList := by
    have digits := @absent_of_digits (toString port).toList '/'
      (fun digit member => digit_of_mem_toString member) rfl
    rw [List.mem_append, not_or]
    refine ⟨form.clear, ?_⟩
    split
    · exact List.not_mem_nil
    · simpa using digits
  have target := congrArg parse (http_target host (if port = Scheme.http.defaultPort then [] else
    ':' :: (toString port).toList) ('/' :: tail))
  obtain ⟨scheme, split, path, valid, loopback⟩ := Parsed.of_target clear
    (target.symm.trans (parseInMode_ok parsed))
  obtain ⟨allowedScheme, allowedHost, allowedPort⟩ := sameAuthority_iff.mp same
  refine ⟨allowed, member, allowedScheme.trans scheme, ?_, ?_, ?_, path ▸ within⟩
  · rw [allowedHost, allowedPort]
    exact split
  · rw [allowedHost]
    exact valid
  · rw [allowedHost]
    exact loopback rfl

/-- A plain request whose authority begins with neither a colon nor a bracket leads to the origin
that it is permitted by. -/
theorem absolute_declared {policy : OriginPolicy} {stripped host path : List Char} {port : Nat}
    (form : AbsoluteForm stripped host port path)
    (authorized : (ParsedRequestLine.httpAbsolute host port path).authorized policy = true)
    (colon : host.head? ≠ some ':') (bracket : host.head? ≠ some '[') :
    ConnectsDeclared policy (.httpAbsolute host port path) := by
  obtain ⟨allowed, request⟩ := permitted_request form authorized
  have split := request.authority
  rw [splitAuthority_default bracket (form.colon colon) form.small form.nonempty] at split
  obtain ⟨hostSame, portSame⟩ := Prod.mk.inj (Except.ok.inj split)
  refine ⟨allowed, request.member, request.scheme, ?_, portSame.symm, ?_⟩
  · rw [← hostSame, connectTarget_lowercase]
    rfl
  · intro forwarded same
    rw [← Option.some.inj same]
    exact request.path

theorem isLoopbackHost_shapes {host : List Char} (loopback : isLoopbackHost host = true) :
    host = "localhost".toList ∨ host = "::1".toList ∨
      ∃ rest, host = '1' :: '2' :: '7' :: '.' :: rest := by
  rw [isLoopbackHost] at loopback
  split at loopback
  · rename_i named
    simp only [Bool.or_eq_true, beq_iff_eq] at named
    rcases named with same | same
    · exact .inl same
    · exact .inr (.inl same)
  · right
    right
    simp only [Bool.and_eq_true, beq_iff_eq] at loopback
    obtain ⟨⟨length, -⟩, head⟩ := loopback
    have whole := @List.intercalate_splitOn _ host _ _ '.'
    cases parts : host.splitOn '.' with
    | nil => simp [parts] at length
    | cons first others =>
        rw [parts] at head length whole
        have first_same : first = "127".toList := Option.some.inj head
        cases others with
        | nil => simp at length
        | cons second others =>
            refine ⟨['.'].intercalate (second :: others), ?_⟩
            rw [← whole, first_same, List.intercalate_cons_cons]
            rfl

theorem parseIpAddress_dotted {rest : List Char} {address : IpAddress}
    (read : parseIpAddress ('1' :: '2' :: '7' :: '.' :: rest) = some address) :
    ∃ octets, address = .v4 octets := by
  cases found : readIpv4 ('1' :: '2' :: '7' :: '.' :: rest) with
  | none =>
      simp [parseIpAddress, found, readIpv6_dotted found] at read
  | some octets =>
      simp only [parseIpAddress, found, Option.map_some, Option.some_or, Option.bind_some] at read
      split at read
      · exact ⟨octets.1, (Option.some.inj read).symm⟩
      · cases read

theorem loopback_target {host : List Char} (loopback : isLoopbackHost host = true) :
    (∃ first rest, first ≠ ':' ∧ connectTarget host = .name (first :: rest)) ∨
      connectTarget host = .address (.v6 ⟨[0, 0, 0, 0, 0, 0, 0, 1]⟩) ∨
      ∃ octets, connectTarget host = .address (.v4 octets) := by
  rcases isLoopbackHost_shapes loopback with rfl | rfl | ⟨rest, rfl⟩
  · exact .inl ⟨'l', "ocalhost".toList, by decide, by decide⟩
  · exact .inr (.inl (by decide))
  · have lowered : toAsciiLowercase ('1' :: '2' :: '7' :: '.' :: rest) =
        '1' :: '2' :: '7' :: '.' :: toAsciiLowercase rest := rfl
    rw [connectTarget, lowered]
    cases read : parseIpAddress ('1' :: '2' :: '7' :: '.' :: toAsciiLowercase rest) with
    | none => exact .inl ⟨'1', _, by decide, rfl⟩
    | some address =>
        obtain ⟨octets, rfl⟩ := parseIpAddress_dotted read
        exact .inr (.inr ⟨octets, rfl⟩)

/-- A loopback host is not resolved as digits behind `::1:` are. -/
theorem loopback_not_grouped {host digits : List Char} (loopback : isLoopbackHost host = true)
    (decimal : ∀ digit ∈ digits, isAsciiDigit digit = true)
    (lowered : toAsciiLowercase digits = digits) :
    connectTarget host ≠ connectTarget (':' :: ':' :: '1' :: ':' :: digits) := by
  have same : toAsciiLowercase (':' :: ':' :: '1' :: ':' :: digits) =
      ':' :: ':' :: '1' :: ':' :: digits :=
    congrArg (fun rest => ':' :: ':' :: '1' :: ':' :: rest) lowered
  intro equal
  rw [connectTarget.eq_def (':' :: ':' :: '1' :: ':' :: digits), same] at equal
  cases read : parseIpAddress (':' :: ':' :: '1' :: ':' :: digits) with
  | none =>
      rw [read] at equal
      rcases loopback_target loopback with ⟨first, rest, other, target⟩ | target | ⟨octets, target⟩
      · rw [target] at equal
        obtain ⟨rfl, -⟩ := List.cons.inj (ConnectTarget.name.inj equal)
        exact other rfl
      · rw [target] at equal
        cases equal
      · rw [target] at equal
        cases equal
  | some address =>
      obtain ⟨group, rfl⟩ := parseIpAddress_grouped decimal read
      rw [read] at equal
      rcases loopback_target loopback with ⟨first, rest, other, target⟩ | target | ⟨octets, target⟩
      · rw [target] at equal
        cases equal
      · rw [target] at equal
        cases equal
      · rw [target] at equal
        cases equal

theorem toAsciiLowercase_digits {digits : List Char}
    (decimal : ∀ digit ∈ digits, isAsciiDigit digit = true) : toAsciiLowercase digits = digits := by
  rw [toAsciiLowercase]
  conv_rhs => rw [← List.map_id digits]
  apply List.map_congr_left
  intro digit member
  have upper := (digit_bounds (decimal digit member)).2
  apply dif_neg
  intro letter
  have lower : 65 ≤ digit.toNat := letter.1
  omega

theorem rsplitOnce_some {separator : Char} {text before after : List Char}
    (found : rsplitOnce separator text = some (before, after)) :
    text = before ++ separator :: after := by
  rw [rsplitOnce, Option.map_eq_some_iff] at found
  obtain ⟨⟨front, back⟩, split, same⟩ := found
  cases same
  have whole := (splitOnce_some split).1
  rw [← List.reverse_reverse text, whole]
  simp

theorem parseExplicitPort_ok {text : List Char} {port : Nat}
    (parsed : parseExplicitPort text = .ok port) : ∀ digit ∈ text, isAsciiDigit digit = true := by
  simp only [parseExplicitPort, bind_unit_ok_iff, ensure_ok_iff, Bool.and_eq_true,
    List.all_eq_true] at parsed
  exact parsed.1.2

/-- A loopback host that is read from an authority with a leading colon is `::1`. -/
theorem splitAuthority_leading {rest host : List Char} {port : Nat}
    (split : splitAuthority (':' :: rest) .http = .ok (host, port))
    (loopback : isLoopbackHost host = true) :
    ∃ digits, (∀ digit ∈ digits, isAsciiDigit digit = true) ∧
      toAsciiLowercase (':' :: rest) = ':' :: ':' :: '1' :: ':' :: digits := by
  rw [splitAuthority, stripLeading_of_head (by simp)] at split
  dsimp only at split
  cases parts : rsplitOnce ':' (':' :: rest) with
  | none =>
      rw [rsplitOnce, Option.map_eq_none_iff] at parts
      exact absurd (by simp) (splitOnce_none parts)
  | some pair =>
      obtain ⟨front, digits⟩ := pair
      rw [parts] at split
      obtain ⟨number, parsed, same⟩ := bind_ok_iff.mp split
      have decimal := parseExplicitPort_ok parsed
      have host_same : toAsciiLowercase front = host :=
        (Prod.mk.inj (Except.ok.inj same)).1
      have whole := rsplitOnce_some parts
      refine ⟨digits, decimal, ?_⟩
      have front_same : toAsciiLowercase front = "::1".toList := by
        cases front with
        | nil =>
            rw [← host_same] at loopback
            cases loopback
        | cons first others =>
            have colon : first = ':' := by
              rw [List.cons_append] at whole
              exact (List.cons.inj whole).1.symm
            rw [← host_same, colon] at loopback
            rw [colon]
            rcases isLoopbackHost_shapes loopback with same | same | ⟨more, same⟩
            · cases same
            · exact same
            · cases same
      rw [whole, toAsciiLowercase, List.map_append, ← toAsciiLowercase, front_same, List.map_cons,
        ← toAsciiLowercase, toAsciiLowercase_digits decimal]
      rfl

theorem leading_colon_undeclared {policy : OriginPolicy} (built : policy.Built)
    {stripped host path : List Char} {port : Nat} (form : AbsoluteForm stripped host port path)
    (authorized : (ParsedRequestLine.httpAbsolute host port path).authorized policy = true)
    (colon : host.head? = some ':') :
    ¬ConnectsDeclared policy (.httpAbsolute host port path) := by
  intro ⟨origin, member, scheme, target, _⟩
  obtain ⟨url, parsed⟩ := built.parsed origin member
  obtain ⟨-, -, written, -, facts⟩ := parse_ok parsed
  obtain ⟨allowed, request⟩ := permitted_request form authorized
  obtain ⟨rest, rfl⟩ : ∃ rest, host = ':' :: rest := by
    cases host with
    | nil => cases colon
    | cons first rest => exact ⟨rest, by rw [Option.some.inj colon]⟩
  have split := request.authority
  rw [if_pos (show port = Scheme.http.defaultPort from form.leading colon), List.append_nil] at split
  obtain ⟨digits, decimal, lowered⟩ := splitAuthority_leading split request.loopback
  have connected : connectTarget (':' :: rest) = connectTarget (':' :: ':' :: '1' :: ':' :: digits) := by
    rw [← lowered, connectTarget_lowercase]
  exact loopback_not_grouped (facts.loopback scheme) decimal (toAsciiLowercase_digits decimal)
    (target.trans connected)

theorem validateHost_legal {host : List Char} (valid : validateHost host = .ok ()) :
    ∀ character ∈ host, (isAsciiAlphanumeric character || character == '.' || character == '-' ||
      character == ':') = true := by
  simp only [validateHost, bind_unit_ok_iff, ensure_ok_iff, List.all_eq_true] at valid
  exact valid.2.1

theorem leading_bracket_undeclared {policy : OriginPolicy} (built : policy.Built)
    {host path : List Char} {port : Nat} (bracket : host.head? = some '[') :
    ¬ConnectsDeclared policy (.httpAbsolute host port path) := by
  intro ⟨origin, member, _, target, _⟩
  obtain ⟨url, parsed⟩ := built.parsed origin member
  obtain ⟨-, -, written, -, facts⟩ := parse_ok parsed
  obtain ⟨rest, rfl⟩ : ∃ rest, host = '[' :: rest := by
    cases host with
    | nil => cases bracket
    | cons first rest => exact ⟨rest, by rw [Option.some.inj bracket]⟩
  have lowered : toAsciiLowercase ('[' :: rest) = '[' :: toAsciiLowercase rest := rfl
  have connected : connectTarget ('[' :: rest) = .name ('[' :: toAsciiLowercase rest) := by
    rw [connectTarget, lowered, parseIpAddress_stop (by decide) (by decide) (by decide)]
  have named : connectTarget origin.host = .name ('[' :: toAsciiLowercase rest) :=
    target.trans connected
  rw [connectTarget] at named
  split at named
  · cases named
  · have same := ConnectTarget.name.inj named
    cases hostCases : origin.host with
    | nil =>
        rw [hostCases] at same
        cases same
    | cons first others =>
        rw [hostCases] at same
        have first_same := toLower_eq_of_no_letter (List.cons.inj same).1 (by decide)
        have legal := validateHost_legal facts.host first (hostCases ▸ List.mem_cons_self)
        rw [first_same] at legal
        exact absurd legal (by decide)

/-- An authorized request is connected to a declared origin exactly if its authority begins with
neither a colon nor a bracket. -/
theorem authorized_connects_declared {policy : OriginPolicy} (built : policy.Built)
    {requestText : List Char} {line : ParsedRequestLine}
    (authorized : authorize policy requestText = some line) :
    ConnectsDeclared policy line ↔ PlainAuthority (firstLine requestText) := by
  obtain ⟨parsed, accepted⟩ := Option.filter_eq_some_iff.mp authorized
  rcases parseRequestLine_some parsed with ⟨none, target, connect⟩ | ⟨stripped, found, absolute⟩
  · obtain ⟨host, port, rfl, small, valid⟩ := parseConnect_some connect
    have declared := tunnel_declared small valid accepted
    refine ⟨fun _ stripped found => ?_, fun _ => declared⟩
    rw [none] at found
    cases found
  · obtain ⟨host, port, path, rfl, form⟩ := parseAbsolute_some absolute
    constructor
    · intro declared other same
      rw [found] at same
      obtain rfl := Option.some.inj same
      rw [form.head]
      constructor
      · intro colon
        exact leading_colon_undeclared built form accepted colon declared
      · intro bracket
        exact leading_bracket_undeclared built bracket declared
    · intro plain
      have head := plain stripped found
      rw [form.head] at head
      exact absolute_declared form accepted head.1 head.2

/-- A registry on two ports of one host, and the policy of its guard. -/
def localPolicy (host : List Char) : OriginPolicy :=
  guardPolicy [.cargoRegistry "local".toList ("http://".toList ++ host ++ ":8080/".toList)
    ("http://".toList ++ host ++ ":8081/crates/".toList) []]

theorem authorized_connects_declared_local :
    ConnectsDeclared (localPolicy "127.0.0.1".toList)
        (.httpAbsolute "127.0.0.1".toList 8080 "/index".toList) ↔
      PlainAuthority (firstLine "GET http://127.0.0.1:8080/index HTTP/1.1\r\n\r\n".toList) :=
  authorized_connects_declared (guardPolicy_built _) (by decide)

/-- The policy reads the port behind the last colon, and the guard takes it into the host. -/
theorem leading_colon_authorized :
    authorize (localPolicy "[::1]".toList)
        "GET http://::1:8080/index HTTP/1.1\r\n\r\n".toList =
      some (.httpAbsolute "::1:8080".toList 80 "/index".toList) ∧
      ¬ConnectsDeclared (localPolicy "[::1]".toList)
        (.httpAbsolute "::1:8080".toList 80 "/index".toList) := by
  refine ⟨by decide, ?_⟩
  intro ⟨origin, member, _, _, port, _⟩
  have allowed : (localPolicy "[::1]".toList).allowed =
      [⟨.http, "::1".toList, 8080, "/".toList⟩, ⟨.http, "::1".toList, 8081, "/crates/".toList⟩] := by
    decide
  rw [allowed] at member
  rcases List.mem_pair.mp member with rfl | rfl
  · cases port
  · cases port

end Kvist.Galla
