import Mullion.Lib.Address
import Mullion.Lib.Pattern

/-!
# The address guard

`url-guard.ts` decides by the text of an address whether the server may connect to it: the host of a
URL before it is stored, and every answer of a resolver before a connection is opened. Whether that
is right can only be said of addresses. `Blocked` are the ranges to be rejected, as blocks of
addresses, and `Printed` the texts in which an address reaches the guard: dotted, in groups with or
without `::`, with an embedded IPv4 address, with a zone.

So the patterns of the source are read back. A text of a given form can be taken apart in one way
only (`determined_hex`, `determined_ipv4Literal`), so a pattern matches exactly if it matches the
parts, and each pattern becomes a condition on the groups of the address (`test_linkLocal`,
`mapped_iff`, `embedded_text_iff`). `reads_text` puts them together: for every printed form the
guard sees the address. It then remains to compare conditions on numbers with blocks of addresses
(`blockedV6_iff`). The guard is exact on every address but `::2` to `::ffff` (`exact_iff`):
`0.0.x.y`, embedded in an IPv6 address, leaves one group behind the colons where the pattern expects
two (`missed_five`).

Letters outside ASCII, which only a zone can hold, are left alone by `toLowerCase` here.
-/

namespace Mullion
namespace UrlGuard

open Pattern Address

/-- `UrlGuardPolicy`. -/
structure UrlGuardPolicy where
  allowLoopback : Bool
  allowPrivate : Bool
  deriving DecidableEq

/-! ## The patterns -/

/-- `\d`. -/
def isDigit (c : Char) : Bool := '0' ≤ c && c ≤ '9'

/-- `[0-9a-f]`, in either case. -/
def isHexDigit (c : Char) : Bool := isDigit c || ('a' ≤ c.toLower && c.toLower ≤ 'f')

/-- A symbol, in either case. -/
def lit (symbol : Char) : Piece Char := one fun c => c.toLower == symbol

/-- One of some symbols, in either case. -/
def oneOf (symbols : List Char) : Piece Char := one fun c => symbols.contains c.toLower

/-- `\d{1,3}`. -/
def digits : Piece Char := ⟨isDigit, 1, 3⟩

/-- `[0-9a-f]{1,4}`. -/
def hexDigits : Piece Char := ⟨isHexDigit, 1, 4⟩

/-- `IPV4_LITERAL`. -/
def ipv4Literal : List (Piece Char) :=
  [digits, lit '.', digits, lit '.', digits, lit '.', digits]

/-- `IPV6_LINK_LOCAL`. -/
def ipv6LinkLocal : List (Piece Char) :=
  [lit 'f', lit 'e', oneOf ['8', '9', 'a', 'b'], one isHexDigit, lit ':']

/-- `IPV6_IMDS_FORMS`. -/
def ipv6ImdsForms : List (List Char) :=
  ["fd00:ec2::254".toList, "fd00:ec2:0:0:0:0:0:254".toList,
    "fd00:ec2:0000:0000:0000:0000:0000:0254".toList]

/-- `IPV6_UNIQUE_LOCAL`. -/
def ipv6UniqueLocal : List (Piece Char) :=
  [lit 'f', oneOf ['c', 'd'], one isHexDigit, one isHexDigit, lit ':']

/-- `^::(?:ffff:)?` before a pattern: the parts of that pattern. -/
def embedded (back : List (Piece Char)) (text : List Char) : Option (List (List Char)) :=
  let front := [lit ':', lit ':']
  let mapped := front ++ [lit 'f', lit 'f', lit 'f', lit 'f', lit ':']
  ((split (mapped ++ back) text).map fun parts => parts.drop mapped.length).or
    ((split (front ++ back) text).map fun parts => parts.drop front.length)

/-- The part of `IPV6_EMBEDDED_IPV4_HEX` behind its prefix. -/
def ipv6EmbeddedIpv4Hex : List (Piece Char) := [hexDigits, lit ':', hexDigits]

/-! ## The guard -/

/-- `IPv4Octets`. -/
structure IPv4Octets where
  a : ℕ
  b : ℕ
  c : ℕ
  d : ℕ
  deriving DecidableEq

/-- `ipv4Octets`. -/
def ipv4Octets (hostname : List Char) : Option IPv4Octets :=
  match split ipv4Literal hostname with
  | some [a, _, b, _, c, _, d] =>
    let octets : IPv4Octets := ⟨numberOf 10 a, numberOf 10 b, numberOf 10 c, numberOf 10 d⟩
    if octets.a > 255 || octets.b > 255 || octets.c > 255 || octets.d > 255 then none
    else some octets
  | _ => none

/-- `isLinkLocalOrSharedNatIPv4`. -/
def isLinkLocalOrSharedNatIPv4 (octets : IPv4Octets) : Bool :=
  octets.a == 169 && octets.b == 254 || octets.a == 100 && 64 ≤ octets.b && octets.b ≤ 127

/-- `isLoopbackIPv4`. -/
def isLoopbackIPv4 (octets : IPv4Octets) : Bool := octets.a == 127

/-- `isPrivateIPv4`. -/
def isPrivateIPv4 (octets : IPv4Octets) : Bool :=
  octets.a == 10 || octets.a == 172 && 16 ≤ octets.b && octets.b ≤ 31 ||
    octets.a == 192 && octets.b == 168 || octets.a == 0

/-- `ipv6EmbeddedIPv4Octets`. -/
def ipv6EmbeddedIPv4Octets (addr : List Char) : Option IPv4Octets :=
  match embedded ipv4Literal addr with
  | some parts => ipv4Octets parts.flatten
  | none =>
    match embedded ipv6EmbeddedIpv4Hex addr with
    | some [first, _, second] =>
      let g1 := numberOf 16 first
      let g2 := numberOf 16 second
      some ⟨g1 >>> 8 &&& 0xff, g1 &&& 0xff, g2 >>> 8 &&& 0xff, g2 &&& 0xff⟩
    | _ => none

/-- `isBlockedIPv4`. -/
def isBlockedIPv4 (octets : IPv4Octets) (policy : UrlGuardPolicy) : Bool :=
  isLinkLocalOrSharedNatIPv4 octets || !policy.allowLoopback && isLoopbackIPv4 octets ||
    !policy.allowPrivate && isPrivateIPv4 octets

/-- `isBlockedIPv6Address`. -/
def isBlockedIPv6Address (address : List Char) (policy : UrlGuardPolicy) : Bool :=
  let addr := ((address.map Char.toLower).splitOn '%').headD []
  test ipv6LinkLocal addr || ipv6ImdsForms.contains addr ||
    !policy.allowLoopback && (addr == "::1".toList || addr == "::".toList) ||
    !policy.allowPrivate && test ipv6UniqueLocal addr ||
    match ipv6EmbeddedIPv4Octets addr with
    | some embeddedV4 => isBlockedIPv4 embeddedV4 policy
    | none => false

/-- `isBlockedIPv6`. -/
def isBlockedIPv6 (hostname : List Char) (policy : UrlGuardPolicy) : Bool :=
  if !(hostname.head? == some '[') || !(hostname.getLast? == some ']') then false
  else isBlockedIPv6Address hostname.tail.dropLast policy

/-- `isAllowedIpAddress`. -/
def isAllowedIpAddress (address : List Char) (policy : UrlGuardPolicy) : Bool :=
  match ipv4Octets address with
  | some octets => !isBlockedIPv4 octets policy
  | none => !isBlockedIPv6Address address policy

/-- What the guard reads of a `URL`. -/
structure Url where
  protocol : String
  hostname : List Char

/-- `isAllowedHttpUrl`, over the URL parser. -/
def isAllowedHttpUrl (newUrl : String → Option Url) (value : String) (policy : UrlGuardPolicy) :
    Bool :=
  match newUrl value with
  | none => false
  | some url =>
    if url.protocol ≠ "http:" ∧ url.protocol ≠ "https:" then false
    else if ((ipv4Octets url.hostname).map fun octets => isBlockedIPv4 octets policy) = some true
      then false
    else !isBlockedIPv6 url.hostname policy

/-! ## What is to be rejected -/

/-- The IPv4 addresses that a policy rejects. -/
def BlockedV4 (policy : UrlGuardPolicy) (v : IPv4) : Prop :=
  let inBlock a b bits := InBlock 32 ((a * 256 + b) * 65536) bits v.value
  inBlock 169 254 16 ∨ inBlock 100 64 10 ∨
    policy.allowLoopback = false ∧ inBlock 127 0 8 ∨
    policy.allowPrivate = false ∧
      (inBlock 10 0 8 ∨ inBlock 172 16 12 ∨ inBlock 192 168 16 ∨ inBlock 0 0 8)

/-- The IPv4 address in the low 32 bits: mapped, or compatible, which `::` and `::1` are not. -/
def Embeds (v : IPv6) (w : IPv4) : Prop :=
  v.value = 0xffff * 2 ^ 32 + w.value ∨ v.value = w.value ∧ 2 ≤ v.value

/-- The IPv6 addresses that a policy rejects. -/
def BlockedV6 (policy : UrlGuardPolicy) (v : IPv6) : Prop :=
  InBlock 128 (0xfe80 * 2 ^ 112) 10 v.value ∨
    v.value = 0xfd00 * 2 ^ 112 + 0xec2 * 2 ^ 96 + 0x254 ∨
    policy.allowLoopback = false ∧ (v.value = 1 ∨ v.value = 0) ∨
    policy.allowPrivate = false ∧ InBlock 128 (0xfc00 * 2 ^ 112) 7 v.value ∨
    ∃ w, Embeds v w ∧ BlockedV4 policy w

/-- An address of either kind. -/
inductive Ip where
  | v4 (v : IPv4)
  | v6 (v : IPv6)

/-- The addresses that a policy rejects. -/
def Blocked (policy : UrlGuardPolicy) : Ip → Prop
  | .v4 v => BlockedV4 policy v
  | .v6 v => BlockedV6 policy v

/-- A zone, or none. -/
def IsZone (text : List Char) : Prop := text = [] ∨ ∃ zone, text = '%' :: zone

/-- The texts of an address: canonical, or as a resolver prints it, with any zone. -/
inductive Printed : Ip → List Char → Prop
  | v4 (v : IPv4) : Printed (.v4 v) v.text
  | canonical (v : IPv6) (zone : List Char) : IsZone zone → Printed (.v6 v) (v.text ++ zone)
  | dotted (v : IPv6) (zone : List Char) : IsZone zone → Printed (.v6 v) (v.dottedText ++ zone)

/-- The host of a URL with an address for a host. -/
def Ip.host : Ip → List Char
  | .v4 v => v.text
  | .v6 v => '[' :: v.text ++ [']']

/-- The guard rejects the address exactly when it is to be rejected: in every printed form, and as
the host of a URL. -/
structure Exact (policy : UrlGuardPolicy) (ip : Ip) : Prop where
  address : ∀ text, Printed ip text → (isAllowedIpAddress text policy = false ↔ Blocked policy ip)
  url : ∀ newUrl value protocol, newUrl value = some ⟨protocol, ip.host⟩ →
    protocol = "http:" ∨ protocol = "https:" →
      (isAllowedHttpUrl newUrl value policy = false ↔ Blocked policy ip)

/-- An IPv4-compatible address `::2` to `::ffff`, where private addresses are rejected. -/
def Missed (policy : UrlGuardPolicy) : Ip → Prop
  | .v4 _ => False
  | .v6 v => policy.allowPrivate = false ∧ 2 ≤ v.value ∧ v.value < 2 ^ 16

/-! ## The classes -/

theorem isDigit_digitChar {d : ℕ} (h : d < 10) : isDigit d.digitChar = true := by
  have hall : ∀ d : Fin 10, isDigit (d : ℕ).digitChar = true := by decide
  exact hall ⟨d, h⟩

theorem isHexDigit_digitChar {d : ℕ} (h : d < 16) : isHexDigit d.digitChar = true := by
  have hall : ∀ d : Fin 16, isHexDigit (d : ℕ).digitChar = true := by decide
  exact hall ⟨d, h⟩

/-- A symbol before the letters has no case. -/
theorem toLower_of_lt {c : Char} (h : c < 'A') : c.toLower = c := by
  delta Char.toLower
  rw [dif_neg]
  exact fun hupper => Char.not_le.2 h hupper.1

theorem isDigit_iff {c : Char} : isDigit c = true ↔ '0' ≤ c ∧ c ≤ '9' := by
  rw [isDigit, Bool.and_eq_true, decide_eq_true_eq, decide_eq_true_eq]

theorem not_isDigit_of_lit {symbol c : Char} (hsymbol : isDigit symbol = false)
    (h : (c.toLower == symbol) = true) : isDigit c = false := by
  by_contra hdigit
  rw [Bool.not_eq_false] at hdigit
  have hlow : c < 'A' := Char.not_le.1 fun hupper =>
    absurd (Char.le_trans hupper (isDigit_iff.1 hdigit).2) (by decide)
  rw [beq_iff_eq, toLower_of_lt hlow] at h
  rw [h, hsymbol] at hdigit
  cases hdigit

theorem not_isHexDigit_of_colon {c : Char} (h : (c.toLower == ':') = true) :
    isHexDigit c = false := by
  rw [isHexDigit, not_isDigit_of_lit (by decide) h, Bool.false_or, beq_iff_eq.1 h]
  decide

/-! ## IPv4 -/

theorem determined_ipv4Literal : Determined ipv4Literal := by
  have hdot {ps : List (Piece Char)} (h : Determined ps) : Determined (digits :: lit '.' :: ps) :=
    .cons_run (fun _ => not_isDigit_of_lit (by decide)) h
  exact hdot (hdot (hdot (determined_last digits)))

/-- A byte in decimal. -/
theorem fits_dec (n : Fin 256) : digits.Fits (dec n) := by
  refine ⟨Nat.length_toDigits_pos, ?_, fun c hc => ?_⟩
  · have hlt : (n : ℕ) < 10 ^ 3 := by omega
    exact (Nat.length_toDigits_le_iff (by decide) (by decide)).2 hlt
  · obtain ⟨d, hd, rfl⟩ := mem_toDigits (by decide) hc
    exact isDigit_digitChar hd

theorem decomposes_text (v : IPv4) :
    Decomposes ipv4Literal v.text [dec v.a, ['.'], dec v.b, ['.'], dec v.c, ['.'], dec v.d] := by
  have hdot : (lit '.').Fits ['.'] := fits_one.2 (by decide)
  refine ⟨.cons (fits_dec v.a) <| .cons hdot <| .cons (fits_dec v.b) <| .cons hdot <|
    .cons (fits_dec v.c) <| .cons hdot <| .cons (fits_dec v.d) .nil, ?_⟩
  simp [IPv4.text, List.intercalate_cons_cons]

/-- The octets of an address. -/
def octetsOf (v : IPv4) : IPv4Octets := ⟨v.a, v.b, v.c, v.d⟩

theorem ipv4Octets_text (v : IPv4) : ipv4Octets v.text = some (octetsOf v) := by
  have hnumber (n : Fin 256) : numberOf 10 (dec n) = n :=
    numberOf_toDigits (by decide) (by decide) n
  rw [ipv4Octets, (split_eq_some_iff determined_ipv4Literal).2 (decomposes_text v)]
  dsimp only
  rw [hnumber, hnumber, hnumber, hnumber, if_neg]
  · rfl
  · simp only [Bool.or_eq_true, decide_eq_true_eq]
    omega

/-- A text with a colon is no IPv4 address. -/
theorem ipv4Octets_of_colon {text : List Char} (h : ':' ∈ text) : ipv4Octets text = none := by
  rw [ipv4Octets]
  cases hsplit : split ipv4Literal text with
  | none => rfl
  | some parts =>
    obtain ⟨p, hp, hok⟩ := (decomposes_of_split hsplit).mem h
    simp only [ipv4Literal, List.mem_cons, List.not_mem_nil, or_false] at hp
    rcases hp with rfl | rfl | rfl | rfl | rfl | rfl | rfl <;> exact absurd hok (by decide)

/-- The ranges of the guard are the blocks of addresses. -/
theorem isBlockedIPv4_iff (v : IPv4) (policy : UrlGuardPolicy) :
    isBlockedIPv4 (octetsOf v) policy = true ↔ BlockedV4 policy v := by
  obtain ⟨a, b, c, d⟩ := v
  have hlink : isLinkLocalOrSharedNatIPv4 ⟨a, b, c, d⟩ = true ↔
      InBlock 32 ((169 * 256 + 254) * 65536) 16 (IPv4.value ⟨a, b, c, d⟩) ∨
        InBlock 32 ((100 * 256 + 64) * 65536) 10 (IPv4.value ⟨a, b, c, d⟩) := by
    simp only [isLinkLocalOrSharedNatIPv4, IPv4.value, InBlock, Bool.or_eq_true,
      Bool.and_eq_true, beq_iff_eq, decide_eq_true_eq]
    omega
  have hloop : isLoopbackIPv4 ⟨a, b, c, d⟩ = true ↔
      InBlock 32 ((127 * 256 + 0) * 65536) 8 (IPv4.value ⟨a, b, c, d⟩) := by
    simp only [isLoopbackIPv4, IPv4.value, InBlock, beq_iff_eq]
    omega
  have hprivate : isPrivateIPv4 ⟨a, b, c, d⟩ = true ↔
      InBlock 32 ((10 * 256 + 0) * 65536) 8 (IPv4.value ⟨a, b, c, d⟩) ∨
        InBlock 32 ((172 * 256 + 16) * 65536) 12 (IPv4.value ⟨a, b, c, d⟩) ∨
        InBlock 32 ((192 * 256 + 168) * 65536) 16 (IPv4.value ⟨a, b, c, d⟩) ∨
        InBlock 32 ((0 * 256 + 0) * 65536) 8 (IPv4.value ⟨a, b, c, d⟩) := by
    simp only [isPrivateIPv4, IPv4.value, InBlock, Bool.or_eq_true,
      Bool.and_eq_true, beq_iff_eq, decide_eq_true_eq]
    omega
  dsimp only [octetsOf]
  rw [isBlockedIPv4, Bool.or_eq_true, Bool.or_eq_true, Bool.and_eq_true, Bool.and_eq_true, hlink,
    hloop, hprivate, Bool.not_eq_true', Bool.not_eq_true', BlockedV4, or_assoc, or_assoc]

/-! ## Where the address begins -/

theorem hexGroup_four {g : Fin 65536} (h : 4096 ≤ (g : ℕ)) :
    hexGroup g = [Nat.digitChar (g / 4096), Nat.digitChar (g / 256 % 16),
      Nat.digitChar (g / 16 % 16), Nat.digitChar (g % 16)] := by
  rw [hexGroup, hex, Nat.toDigits_of_base_le (by decide) (by omega),
    Nat.toDigits_of_base_le (by decide) (by omega), Nat.toDigits_of_base_le (by decide) (by omega),
    Nat.toDigits_of_lt_base (by omega)]
  simp [Nat.div_div_eq_div_mul]

/-- A pattern of four symbols and a colon, on the first group. -/
theorem test_group {p q r s : Char → Bool} (hp : p ':' = false) (hq : q ':' = false)
    (hr : r ':' = false) (hs : s ':' = false) (g : Fin 65536) (tail : List Char) :
    test [one p, one q, one r, one s, lit ':'] (hexGroup g ++ ':' :: tail) = true ↔
      4096 ≤ (g : ℕ) ∧ p (Nat.digitChar (g / 4096)) = true ∧
        q (Nat.digitChar (g / 256 % 16)) = true ∧ r (Nat.digitChar (g / 16 % 16)) = true ∧
        s (Nat.digitChar (g % 16)) = true := by
  have hcolon : (':'.toLower == ':') = true := by decide
  by_cases hg : 4096 ≤ (g : ℕ)
  · rw [hexGroup_four hg]
    simp only [lit, List.cons_append, List.nil_append, test_one_cons, test_nil, hcolon,
      Bool.and_eq_true, hg, true_and, and_true]
  · refine iff_of_false ?_ fun h => hg h.1
    have hlen : (hexGroup g).length ≤ 3 :=
      (Nat.length_toDigits_le_iff (by decide) (by decide)).2 (by omega)
    -- the colon comes too early
    match hgroup : hexGroup g, hlen with
    | [], _ => simp [test_one_cons, hp]
    | [_], _ => simp [test_one_cons, hq]
    | [_, _], _ => simp [test_one_cons, hr]
    | [_, _, _], _ => simp [test_one_cons, hs]

theorem test_of_colon {p : Char → Bool} (hp : p ':' = false) (ps : List (Piece Char))
    (tail : List Char) : test (one p :: ps) (':' :: tail) = false := by
  rw [test_one_cons, hp, Bool.false_and]

theorem exists_value (v : IPv6) : ∃ g rest low, v.groups = g :: rest ∧
    v.value = (g : ℕ) * 2 ^ 112 + low ∧ low < 2 ^ 112 := by
  obtain ⟨a, b, c, d, e, f, g, h, hv⟩ := v.exists_groups
  refine ⟨a, _, v.value - a * 2 ^ 112, hv, ?_, ?_⟩ <;> rw [v.value_eq hv] <;> omega

/-- A block of the first group. -/
theorem inBlock_group {base bits g low : ℕ} (hbits : bits ≤ 16) (hlow : low < 2 ^ 112) :
    InBlock 128 (base * 2 ^ 112) bits (g * 2 ^ 112 + low) ↔ InBlock 16 base bits g := by
  have hwidth : 128 - bits = 112 + (16 - bits) := by omega
  have hfirst : (g * 2 ^ 112 + low) / 2 ^ 112 = g := by omega
  have hbase : base * 2 ^ 112 / 2 ^ 112 = base := Nat.mul_div_cancel _ (by positivity)
  rw [InBlock, InBlock, hwidth, pow_add, ← Nat.div_div_eq_div_mul, ← Nat.div_div_eq_div_mul,
    hfirst, hbase]

/-- The patterns on the first group tell the blocks of the first group. -/
theorem test_text {p q r s : Char → Bool} {P Q R S : ℕ → Prop} (hp : p ':' = false)
    (hq : q ':' = false) (hr : r ':' = false) (hs : s ':' = false)
    (hP : ∀ d : Fin 16, p (d : ℕ).digitChar = true ↔ P d)
    (hQ : ∀ d : Fin 16, q (d : ℕ).digitChar = true ↔ Q d)
    (hR : ∀ d : Fin 16, r (d : ℕ).digitChar = true ↔ R d)
    (hS : ∀ d : Fin 16, s (d : ℕ).digitChar = true ↔ S d) {base bits : ℕ}
    (hblock : ∀ g : Fin 65536, ∀ low < 2 ^ 112,
      InBlock 128 base bits ((g : ℕ) * 2 ^ 112 + low) ↔
        4096 ≤ (g : ℕ) ∧ P (g / 4096) ∧ Q (g / 256 % 16) ∧ R (g / 16 % 16) ∧ S (g % 16))
    (v : IPv6) :
    test [one p, one q, one r, one s, lit ':'] v.text = true ↔ InBlock 128 base bits v.value := by
  obtain ⟨g, rest, low, hgroups, hvalue, hlow⟩ := exists_value v
  obtain ⟨g', rest', piece, tail, hgroups', htext, hpiece⟩ := text_eq v
  obtain ⟨rfl, -⟩ := List.cons.inj (hgroups.symm.trans hgroups')
  rw [hvalue, hblock g low hlow, htext]
  rcases hpiece with rfl | ⟨rfl, rfl⟩
  · have hlow16 (n : ℕ) : n % 16 < 16 := Nat.mod_lt n (by decide)
    rw [test_group hp hq hr hs g tail, hP ⟨g / 4096, by omega⟩, hQ ⟨_, hlow16 _⟩,
      hR ⟨_, hlow16 _⟩, hS ⟨_, hlow16 _⟩]
  · rw [List.nil_append, test_of_colon hp]
    exact iff_of_false Bool.false_ne_true fun h => absurd h.1 (by decide)

theorem test_linkLocal (v : IPv6) :
    test ipv6LinkLocal v.text = true ↔ InBlock 128 (0xfe80 * 2 ^ 112) 10 v.value := by
  refine test_text (P := (· = 15)) (Q := (· = 14)) (R := fun d => 8 ≤ d ∧ d ≤ 11)
    (S := fun _ => True) (by decide) (by decide) (by decide) (by decide) (by decide) (by decide)
    (by decide) (by decide) (fun g low hlow => ?_) v
  rw [inBlock_group (by decide) hlow, InBlock]
  simp only [and_true]
  omega

theorem test_uniqueLocal (v : IPv6) :
    test ipv6UniqueLocal v.text = true ↔ InBlock 128 (0xfc00 * 2 ^ 112) 7 v.value := by
  refine test_text (P := (· = 15)) (Q := fun d => 12 ≤ d ∧ d ≤ 13) (R := fun _ => True)
    (S := fun _ => True) (by decide) (by decide) (by decide) (by decide) (by decide) (by decide)
    (by decide) (by decide) (fun g low hlow => ?_) v
  rw [inBlock_group (by decide) hlow, InBlock]
  simp only [and_true]
  omega

/-! ## The addresses that are told by their text -/

/-- The address of the metadata service. -/
def imds : IPv6 := ⟨[0xfd00, 0xec2, 0, 0, 0, 0, 0, 0x254], rfl⟩

theorem value_inj {v w : IPv6} (h : v.value = w.value) : v = w := by
  obtain ⟨a, b, c, d, e, f, g, i, hv⟩ := v.exists_groups
  obtain ⟨a', b', c', d', e', f', g', i', hw⟩ := w.exists_groups
  rw [v.value_eq hv, w.value_eq hw] at h
  have hgroups : v.groups = w.groups := by
    rw [hv, hw]
    simp only [List.cons.injEq, and_true]
    omega
  cases v
  cases w
  cases hgroups
  rfl

/-- A text of an address is the text of no other one. -/
theorem text_eq_iff {v w : IPv6} {text : List Char} (htext : w.text = text) {value : ℕ}
    (hvalue : w.value = value) : v.text = text ↔ v.value = value := by
  rw [← htext, ← hvalue]
  exact ⟨fun h => congrArg _ (IPv6.text_inj h), fun h => congrArg _ (value_inj h)⟩

/-- A text with all eight groups is not the text of an address that has a shorter one. -/
theorem text_ne_of_full {text : List Char} {w : IPv6} (hnil : [] ∉ text.splitOn ':')
    (hgroups : (text.splitOn ':').map (numberOf 16) = w.groups.map Fin.val)
    (hw : w.text ≠ text) (v : IPv6) : v.text ≠ text := by
  intro h
  rw [← h, splitOn_text] at hnil hgroups
  rw [groups_of_full hnil, List.map_map] at hgroups
  have hnumber : numberOf 16 ∘ hexGroup = Fin.val :=
    funext fun g => numberOf_toDigits (by decide) le_rfl g
  rw [hnumber] at hgroups
  have hvw : v.groups = w.groups := List.map_injective_iff.2 Fin.val_injective hgroups
  cases v
  cases w
  cases hvw
  exact hw h

theorem imds_text_iff (v : IPv6) : ipv6ImdsForms.contains v.text = true ↔
    v.value = 0xfd00 * 2 ^ 112 + 0xec2 * 2 ^ 96 + 0x254 := by
  have htext : imds.text = "fd00:ec2::254".toList := by decide +kernel
  have hvalue : imds.value = 0xfd00 * 2 ^ 112 + 0xec2 * 2 ^ 96 + 0x254 := by decide +kernel
  rw [List.contains_iff_mem, ipv6ImdsForms, List.mem_cons, List.mem_cons, List.mem_singleton,
    text_eq_iff htext hvalue]
  refine or_iff_left ?_
  rintro (h | h)
  · refine text_ne_of_full (w := imds) ?_ ?_ ?_ v h <;> decide +kernel
  · refine text_ne_of_full (w := imds) ?_ ?_ ?_ v h <;> decide +kernel

theorem loopback_text_iff (v : IPv6) :
    (v.text == "::1".toList || v.text == "::".toList) = true ↔ v.value = 1 ∨ v.value = 0 := by
  have hone : IPv6.text ⟨[0, 0, 0, 0, 0, 0, 0, 1], rfl⟩ = "::1".toList := by decide +kernel
  have hzero : IPv6.text ⟨[0, 0, 0, 0, 0, 0, 0, 0], rfl⟩ = "::".toList := by decide +kernel
  have hvalue : IPv6.value ⟨[0, 0, 0, 0, 0, 0, 0, 1], rfl⟩ = 1 := by decide +kernel
  have hvalue' : IPv6.value ⟨[0, 0, 0, 0, 0, 0, 0, 0], rfl⟩ = 0 := by decide +kernel
  rw [Bool.or_eq_true, beq_iff_eq, beq_iff_eq, text_eq_iff hone hvalue, text_eq_iff hzero hvalue']

/-! ## The embedded address -/

variable {back : List (Piece Char)} {text : List Char} {parts : List (List Char)}

/-- Only the symbol itself is one before the letters in lower case. -/
theorem eq_of_toLower_lt {c symbol : Char} (hsymbol : symbol < 'A') (h : c.toLower = symbol) :
    c = symbol := by
  subst h
  delta Char.toLower at hsymbol ⊢
  split_ifs at hsymbol ⊢ with hupper
  · have hlow := UInt32.le_iff_toNat_le.1 hupper.1
    have hhigh := UInt32.le_iff_toNat_le.1 hupper.2
    have hsum := UInt32.lt_iff_toNat_lt.1 (Char.lt_def.1 hsymbol)
    rw [UInt32.toNat_add] at hsum
    simp at hlow hhigh hsum
    omega
  · rfl

theorem eq_colon_of_toLower {c : Char} (h : c.toLower = ':') : c = ':' :=
  eq_of_toLower_lt (by decide) h

/-- The text behind the two colons. -/
def Compatible (back : List (Piece Char)) (text : List Char) (parts : List (List Char)) : Prop :=
  ∃ tail, text = ':' :: ':' :: tail ∧ Decomposes back tail parts

/-- The text behind the prefix of a mapped address. -/
def Mapped (back : List (Piece Char)) (text : List Char) (parts : List (List Char)) : Prop :=
  ∃ p q r s tail, text = ':' :: ':' :: p :: q :: r :: s :: ':' :: tail ∧
    [p, q, r, s].map Char.toLower = ['f', 'f', 'f', 'f'] ∧ Decomposes back tail parts

theorem decomposes_lit {symbol : Char} : Decomposes (lit symbol :: back) text parts ↔
    ∃ c rest tail, text = c :: tail ∧ parts = [c] :: rest ∧ c.toLower = symbol ∧
      Decomposes back tail rest := by
  simp only [lit, decomposes_one_cons, beq_iff_eq]

theorem compatible_iff : (∃ full, Decomposes (lit ':' :: lit ':' :: back) text full ∧
    full.drop 2 = parts) ↔ Compatible back text parts := by
  constructor
  · rintro ⟨full, h, rfl⟩
    obtain ⟨c, rest, tail, rfl, rfl, hc, h⟩ := decomposes_lit.1 h
    obtain ⟨d, rest, tail, rfl, rfl, hd, h⟩ := decomposes_lit.1 h
    rw [eq_colon_of_toLower hc, eq_colon_of_toLower hd]
    exact ⟨tail, rfl, h⟩
  · rintro ⟨tail, rfl, h⟩
    refine ⟨[':'] :: [':'] :: parts, ?_, rfl⟩
    exact decomposes_lit.2 ⟨_, _, _, rfl, rfl, by decide,
      decomposes_lit.2 ⟨_, _, _, rfl, rfl, by decide, h⟩⟩

theorem mapped_iff : (∃ full, Decomposes (lit ':' :: lit ':' :: lit 'f' :: lit 'f' :: lit 'f' ::
    lit 'f' :: lit ':' :: back) text full ∧ full.drop 7 = parts) ↔ Mapped back text parts := by
  constructor
  · rintro ⟨full, h, rfl⟩
    obtain ⟨c, rest, tail, rfl, rfl, hc, h⟩ := decomposes_lit.1 h
    obtain ⟨d, rest, tail, rfl, rfl, hd, h⟩ := decomposes_lit.1 h
    obtain ⟨p, rest, tail, rfl, rfl, hp, h⟩ := decomposes_lit.1 h
    obtain ⟨q, rest, tail, rfl, rfl, hq, h⟩ := decomposes_lit.1 h
    obtain ⟨r, rest, tail, rfl, rfl, hr, h⟩ := decomposes_lit.1 h
    obtain ⟨s, rest, tail, rfl, rfl, hs, h⟩ := decomposes_lit.1 h
    obtain ⟨e, rest, tail, rfl, rfl, he, h⟩ := decomposes_lit.1 h
    rw [eq_colon_of_toLower hc, eq_colon_of_toLower hd, eq_colon_of_toLower he]
    exact ⟨p, q, r, s, tail, rfl, by simp [hp, hq, hr, hs], h⟩
  · rintro ⟨p, q, r, s, tail, rfl, hf, h⟩
    simp only [List.map_cons, List.map_nil, List.cons.injEq, and_true] at hf
    obtain ⟨hp, hq, hr, hs⟩ := hf
    refine ⟨[':'] :: [':'] :: [p] :: [q] :: [r] :: [s] :: [':'] :: parts, ?_, rfl⟩
    exact decomposes_lit.2 ⟨_, _, _, rfl, rfl, by decide, decomposes_lit.2 ⟨_, _, _, rfl, rfl,
      by decide, decomposes_lit.2 ⟨_, _, _, rfl, rfl, hp, decomposes_lit.2 ⟨_, _, _, rfl, rfl, hq,
      decomposes_lit.2 ⟨_, _, _, rfl, rfl, hr, decomposes_lit.2 ⟨_, _, _, rfl, rfl, hs,
      decomposes_lit.2 ⟨_, _, _, rfl, rfl, by decide, h⟩⟩⟩⟩⟩⟩⟩

/-- The embedded address is found behind either prefix, where no text fits both. -/
theorem embedded_eq_some_iff (hback : Determined back)
    (hexcl : ∀ parts', Mapped back text parts' → ¬ Compatible back text parts) :
    embedded back text = some parts ↔ Mapped back text parts ∨ Compatible back text parts := by
  have hlit (symbol : Char) {ps : List (Piece Char)} (h : Determined ps) :
      Determined (lit symbol :: ps) := h.cons_fixed rfl
  have hfront := hlit ':' (hlit ':' hback)
  have hmapped := hlit ':' (hlit ':' (hlit 'f' (hlit 'f' (hlit 'f' (hlit 'f' (hlit ':' hback))))))
  rw [embedded, Option.or_eq_some_iff, Option.map_eq_some_iff, Option.map_eq_none_iff,
    Option.map_eq_some_iff, ← mapped_iff, ← compatible_iff]
  have hsplit {ps : List (Piece Char)} (h : Determined ps) (n : ℕ) :
      (∃ full, split ps text = some full ∧ full.drop n = parts) ↔
        ∃ full, Decomposes ps text full ∧ full.drop n = parts :=
    exists_congr fun full => and_congr_left' (split_eq_some_iff h)
  refine or_congr (hsplit hmapped 7) ?_
  constructor
  · exact fun h => (hsplit hfront 2).1 h.2
  · intro h
    refine ⟨?_, (hsplit hfront 2).2 h⟩
    rw [Option.eq_none_iff_forall_ne_some]
    intro full hfull
    exact hexcl _ (mapped_iff.1 ⟨full, decomposes_of_split hfull, rfl⟩) (compatible_iff.1 h)

/-- The colons of a text that has a mapped and a compatible reading do not add up. -/
theorem not_compatible_of_mapped {n : ℕ}
    (hcount : ∀ tail parts, Decomposes back tail parts → tail.count ':' = n)
    {parts' : List (List Char)} (h : Mapped back text parts') : ¬ Compatible back text parts := by
  rintro ⟨tail', htext, hparts⟩
  obtain ⟨p, q, r, s, tail, rfl, hf, hparts'⟩ := h
  have hne {c : Char} (hc : c.toLower = 'f') : ¬ (c == ':') = true := by
    rw [beq_iff_eq]
    rintro rfl
    exact absurd hc (by decide)
  simp only [List.map_cons, List.map_nil, List.cons.injEq, and_true] at hf
  obtain ⟨hp, hq, hr, hs⟩ := hf
  have hsum := congrArg (List.count ':') htext
  rw [List.count_cons_self, List.count_cons_self, List.count_cons, List.count_cons,
    List.count_cons, List.count_cons, List.count_cons_self, List.count_cons_self,
    List.count_cons_self, hcount _ _ hparts, hcount _ _ hparts', if_neg (hne hp), if_neg (hne hq),
    if_neg (hne hr), if_neg (hne hs)] at hsum
  omega

/-- The two groups of an embedded address. -/
theorem decomposes_hex : Decomposes ipv6EmbeddedIpv4Hex text parts ↔ ∃ x y,
    hexDigits.Fits x ∧ hexDigits.Fits y ∧ text = x ++ ':' :: y ∧ parts = [x, [':'], y] := by
  rw [ipv6EmbeddedIpv4Hex, decomposes_cons]
  constructor
  · rintro ⟨x, rest, tail, rfl, rfl, hx, h⟩
    obtain ⟨c, rest, tail, rfl, rfl, hc, h⟩ := decomposes_lit.1 h
    obtain ⟨y, rest, tail, rfl, rfl, hy, h⟩ := decomposes_cons.1 h
    obtain ⟨rfl, rfl⟩ := decomposes_nil.1 h
    exact ⟨x, y, hx, hy, by rw [eq_colon_of_toLower hc, List.append_nil],
      by rw [eq_colon_of_toLower hc]⟩
  · rintro ⟨x, y, hx, hy, rfl, rfl⟩
    refine ⟨x, _, _, rfl, rfl, hx, decomposes_lit.2 ⟨':', _, _, rfl, rfl, by decide, ?_⟩⟩
    exact decomposes_cons.2 ⟨y, _, [], by simp, rfl, hy, decomposes_nil.2 ⟨rfl, rfl⟩⟩

theorem colon_not_mem_of_fits {x : List Char} (h : hexDigits.Fits x) : ':' ∉ x :=
  fun hcolon => absurd (h.2.2 ':' hcolon) (by decide)

theorem determined_hex : Determined ipv6EmbeddedIpv4Hex :=
  .cons_run (fun _ => not_isHexDigit_of_colon) (determined_last hexDigits)

theorem count_hex {tail : List Char} {parts : List (List Char)}
    (h : Decomposes ipv6EmbeddedIpv4Hex tail parts) : tail.count ':' = 1 := by
  obtain ⟨x, y, hx, hy, rfl, -⟩ := decomposes_hex.1 h
  rw [List.count_append, List.count_cons_self, List.count_eq_zero_of_not_mem
    (colon_not_mem_of_fits hx), List.count_eq_zero_of_not_mem (colon_not_mem_of_fits hy)]

theorem count_ipv4 {tail : List Char} {parts : List (List Char)}
    (h : Decomposes ipv4Literal tail parts) : tail.count ':' = 0 := by
  refine List.count_eq_zero_of_not_mem fun hcolon => ?_
  obtain ⟨p, hp, hok⟩ := h.mem hcolon
  simp only [ipv4Literal, List.mem_cons, List.not_mem_nil, or_false] at hp
  rcases hp with rfl | rfl | rfl | rfl | rfl | rfl | rfl <;> exact absurd hok (by decide)

theorem embedded_hex_iff : embedded ipv6EmbeddedIpv4Hex text = some parts ↔
    Mapped ipv6EmbeddedIpv4Hex text parts ∨ Compatible ipv6EmbeddedIpv4Hex text parts :=
  embedded_eq_some_iff determined_hex fun _ =>
    not_compatible_of_mapped fun _ _ => count_hex

theorem embedded_ipv4_iff : embedded ipv4Literal text = some parts ↔
    Mapped ipv4Literal text parts ∨ Compatible ipv4Literal text parts :=
  embedded_eq_some_iff determined_ipv4Literal fun _ =>
    not_compatible_of_mapped fun _ _ => count_ipv4

/-- An address that embeds another one, in two groups behind the colons. -/
def EmbedsIn (v : IPv6) (h l : Fin 65536) : Prop :=
  v.groups = [0, 0, 0, 0, 0, 0xffff, h, l] ∨ v.groups = [0, 0, 0, 0, 0, 0, h, l] ∧ h ≠ 0

theorem fits_hexGroup (g : Fin 65536) : hexDigits.Fits (hexGroup g) := by
  refine ⟨Nat.length_toDigits_pos, ?_, fun c hc => ?_⟩
  · have hlt : (g : ℕ) < 16 ^ 4 := by omega
    exact (Nat.length_toDigits_le_iff (by decide) (by decide)).2 hlt
  · obtain ⟨d, hd, rfl⟩ := mem_toDigits (by decide) hc
    exact isHexDigit_digitChar hd

/-- A group that reads as `ffff`. -/
theorem eq_of_toLower {g : Fin 65536}
    (h : (hexGroup g).map Char.toLower = ['f', 'f', 'f', 'f']) : g = 0xffff := by
  have hsame : (hexGroup g).map Char.toLower = hexGroup g := by
    refine (List.map_congr_left fun c hc => ?_).trans (List.map_id _)
    obtain ⟨d, hd, rfl⟩ := mem_toDigits (by decide) hc
    have hall : ∀ d : Fin 16, (d : ℕ).digitChar.toLower = (d : ℕ).digitChar := by decide
    exact hall ⟨d, hd⟩
  have hf : hexGroup 0xffff = ['f', 'f', 'f', 'f'] := by decide +kernel
  exact Fin.ext (hex_inj (hsame.symm.trans (h.trans hf.symm)))

/-- The pieces of a text with two groups behind its prefix. -/
theorem pieces_of_text {v : IPv6} {front : List (List Char)} {x y : List Char}
    (hfront : ∀ piece ∈ front, ':' ∉ piece) (hx : hexDigits.Fits x) (hy : hexDigits.Fits y)
    (h : v.text = [':'].intercalate (front ++ [x, y])) : v.pieces = front ++ [x, y] := by
  rw [← splitOn_text, h]
  refine List.splitOn_intercalate _ (fun piece hpiece => ?_) (by simp)
  rcases List.mem_append.1 hpiece with hpiece | hpiece
  · exact hfront piece hpiece
  · simp only [List.mem_cons, List.not_mem_nil, or_false] at hpiece
    rcases hpiece with rfl | rfl
    · exact colon_not_mem_of_fits hx
    · exact colon_not_mem_of_fits hy

theorem ne_nil_of_fits {x : List Char} (h : hexDigits.Fits x) : [] ≠ x := by
  rintro rfl
  exact absurd h.1 (by decide)

/-- The groups that the guard finds in a canonical form. -/
theorem embedded_text_iff (v : IPv6) : embedded ipv6EmbeddedIpv4Hex v.text = some parts ↔
    ∃ h l, EmbedsIn v h l ∧ parts = [hexGroup h, [':'], hexGroup l] := by
  rw [embedded_hex_iff]
  constructor
  · rintro (⟨p, q, r, s, tail, htext, hf, hparts⟩ | ⟨tail, htext, hparts⟩)
    · obtain ⟨x, y, hx, hy, rfl, rfl⟩ := decomposes_hex.1 hparts
      have hcolon : ':' ∉ [p, q, r, s] := by
        intro hmem
        have hlower := List.mem_map_of_mem (f := Char.toLower) hmem
        rw [hf] at hlower
        exact absurd hlower (by decide)
      have hpieces : v.pieces = [[], [], [p, q, r, s]] ++ [x, y] := by
        refine pieces_of_text ?_ hx hy (by rw [htext]; simp)
        intro piece hpiece
        simp only [List.mem_cons, List.not_mem_nil, or_false] at hpiece
        rcases hpiece with rfl | rfl | rfl
        · exact List.not_mem_nil
        · exact List.not_mem_nil
        · exact hcolon
      obtain ⟨rest, hgroups, hmap, -⟩ := groups_of_pieces hpieces
        (by simp [ne_nil_of_fits hx, ne_nil_of_fits hy])
      obtain ⟨g, rest₁, rfl, hg, hmap₁⟩ := List.map_eq_cons_iff.1 hmap
      obtain ⟨h, rest₂, rfl, rfl, hmap₂⟩ := List.map_eq_cons_iff.1 hmap₁
      obtain ⟨l, rest₃, rfl, rfl, hmap₃⟩ := List.map_eq_cons_iff.1 hmap₂
      rw [← hg] at hf
      refine ⟨h, l, Or.inl ?_, rfl⟩
      rw [hgroups, eq_of_toLower hf, List.map_eq_nil_iff.1 hmap₃]
      rfl
    · obtain ⟨x, y, hx, hy, rfl, rfl⟩ := decomposes_hex.1 hparts
      have hpieces : v.pieces = [[], []] ++ [x, y] := by
        refine pieces_of_text ?_ hx hy (by rw [htext]; simp)
        simp
      obtain ⟨rest, hgroups, hmap, hrun⟩ := groups_of_pieces hpieces
        (by simp [ne_nil_of_fits hx, ne_nil_of_fits hy])
      obtain ⟨h, rest₁, rfl, rfl, hmap₁⟩ := List.map_eq_cons_iff.1 hmap
      obtain ⟨l, rest₂, rfl, rfl, hmap₂⟩ := List.map_eq_cons_iff.1 hmap₁
      rw [List.map_eq_nil_iff.1 hmap₂] at hgroups
      refine ⟨h, l, Or.inr ⟨hgroups, ?_⟩, rfl⟩
      exact ne_zero_of_longestRun hrun (by rw [hgroups]; rfl)
  · rintro ⟨h, l, hv | ⟨hv, hh⟩, rfl⟩
    · refine Or.inl ⟨'f', 'f', 'f', 'f', hexGroup h ++ ':' :: hexGroup l, ?_, by decide,
        decomposes_hex.2 ⟨_, _, fits_hexGroup h, fits_hexGroup l, rfl, rfl⟩⟩
      have hf : hexGroup 0xffff = ['f', 'f', 'f', 'f'] := by decide +kernel
      rw [IPv6.text, (pieces_of_five hv (by decide)).2, hf]
      simp
    · refine Or.inr ⟨hexGroup h ++ ':' :: hexGroup l, ?_,
        decomposes_hex.2 ⟨_, _, fits_hexGroup h, fits_hexGroup l, rfl, rfl⟩⟩
      rw [IPv6.text, (pieces_of_six hv hh).2]
      simp

theorem dot_mem_of_decomposes (h : Decomposes ipv4Literal text parts) : '.' ∈ text := by
  obtain ⟨a, rest, tail, rfl, rfl, ha, h⟩ := decomposes_cons.1 h
  obtain ⟨c, rest, tail, rfl, rfl, hc, h⟩ := decomposes_lit.1 h
  rw [eq_of_toLower_lt (by decide) hc]
  exact List.mem_append_right _ List.mem_cons_self

/-- No canonical form holds a dotted address. -/
theorem embedded_ipv4_text (v : IPv6) : embedded ipv4Literal v.text = none := by
  have hdot : '.' ∉ v.text := by
    intro h
    rcases IPv6.mem_text h with h | ⟨d, h⟩
    · exact absurd h (by decide)
    · have hall : ∀ d : Fin 16, '.' ≠ (d : ℕ).digitChar := by decide
      exact hall d h
  rw [Option.eq_none_iff_forall_ne_some]
  intro parts h
  rcases embedded_ipv4_iff.1 h with ⟨p, q, r, s, tail, htext, -, hparts⟩ | ⟨tail, htext, hparts⟩
  · refine hdot ?_
    rw [htext]
    simp [dot_mem_of_decomposes hparts]
  · refine hdot ?_
    rw [htext]
    simp [dot_mem_of_decomposes hparts]

/-- The bytes of two groups. -/
theorem bytes_eq (h l : Fin 65536) : (⟨(h : ℕ) >>> 8 &&& 0xff, (h : ℕ) &&& 0xff,
    (l : ℕ) >>> 8 &&& 0xff, (l : ℕ) &&& 0xff⟩ : IPv4Octets) = octetsOf (ofGroups h l) := by
  have hmask (n : ℕ) : n &&& 0xff = n % 256 := Nat.and_two_pow_sub_one_eq_mod n 8
  rw [hmask, hmask, hmask, hmask, Nat.shiftRight_eq_div_pow, Nat.shiftRight_eq_div_pow,
    Nat.mod_eq_of_lt (by omega : (h : ℕ) / 2 ^ 8 < 256),
    Nat.mod_eq_of_lt (by omega : (l : ℕ) / 2 ^ 8 < 256)]
  rfl

/-- The guard unwraps a canonical form that embeds an address. -/
theorem octets_text_iff (v : IPv6) (octets : IPv4Octets) :
    ipv6EmbeddedIPv4Octets v.text = some octets ↔
      ∃ h l, EmbedsIn v h l ∧ octets = octetsOf (ofGroups h l) := by
  have hnumber (g : Fin 65536) : numberOf 16 (hexGroup g) = g :=
    numberOf_toDigits (by decide) le_rfl g
  rw [ipv6EmbeddedIPv4Octets, embedded_ipv4_text]
  dsimp only
  cases hfound : embedded ipv6EmbeddedIpv4Hex v.text with
  | none =>
    refine iff_of_false nofun ?_
    rintro ⟨h, l, hv, -⟩
    rw [(embedded_text_iff v).2 ⟨h, l, hv, rfl⟩] at hfound
    cases hfound
  | some parts =>
    obtain ⟨h, l, hv, rfl⟩ := (embedded_text_iff v).1 hfound
    dsimp only
    rw [hnumber, hnumber, bytes_eq, Option.some.injEq]
    constructor
    · rintro rfl
      exact ⟨h, l, hv, rfl⟩
    · rintro ⟨h', l', hv', rfl⟩
      have hparts := (embedded_text_iff v).2 ⟨h', l', hv', rfl⟩
      rw [hfound, Option.some.injEq] at hparts
      simp only [List.cons.injEq, and_true, true_and] at hparts
      rw [Fin.ext (hex_inj hparts.1), Fin.ext (hex_inj hparts.2)]

/-- The guard unwraps a dotted form. -/
theorem octets_of_parts {parts : List (List Char)} {w : IPv4}
    (h : embedded ipv4Literal text = some parts) (hparts : parts.flatten = w.text) :
    ipv6EmbeddedIPv4Octets text = some (octetsOf w) := by
  rw [ipv6EmbeddedIPv4Octets, h]
  dsimp only
  rw [hparts, ipv4Octets_text]

theorem octets_compatible (w : IPv4) :
    ipv6EmbeddedIPv4Octets (':' :: ':' :: w.text) = some (octetsOf w) :=
  octets_of_parts (embedded_ipv4_iff.2 (Or.inr ⟨_, rfl, decomposes_text w⟩)) (decomposes_text w).2

theorem octets_mapped (w : IPv4) :
    ipv6EmbeddedIPv4Octets (':' :: ':' :: 'f' :: 'f' :: 'f' :: 'f' :: ':' :: w.text) =
      some (octetsOf w) :=
  octets_of_parts (embedded_ipv4_iff.2
    (Or.inl ⟨_, _, _, _, _, rfl, by decide, decomposes_text w⟩)) (decomposes_text w).2

/-! ## The guard reads the address -/

/-- What the guard finds in a text is what the address is. -/
structure Reads (v : IPv6) (text : List Char) : Prop where
  linkLocal : test ipv6LinkLocal text = true ↔ InBlock 128 (0xfe80 * 2 ^ 112) 10 v.value
  imds : ipv6ImdsForms.contains text = true ↔ v.value = 0xfd00 * 2 ^ 112 + 0xec2 * 2 ^ 96 + 0x254
  loopback : (text == "::1".toList || text == "::".toList) = true ↔ v.value = 1 ∨ v.value = 0
  uniqueLocal : test ipv6UniqueLocal text = true ↔ InBlock 128 (0xfc00 * 2 ^ 112) 7 v.value
  octets : ∀ octets, ipv6EmbeddedIPv4Octets text = some octets ↔
    ∃ h l, EmbedsIn v h l ∧ octets = octetsOf (ofGroups h l)

theorem reads_text (v : IPv6) : Reads v v.text where
  linkLocal := test_linkLocal v
  imds := imds_text_iff v
  loopback := loopback_text_iff v
  uniqueLocal := test_uniqueLocal v
  octets := octets_text_iff v

theorem EmbedsIn.inj {v : IPv6} {h l h' l' : Fin 65536} (hv : EmbedsIn v h l)
    (hv' : EmbedsIn v h' l') : h = h' ∧ l = l' := by
  rcases hv with hv | ⟨hv, -⟩ <;> rcases hv' with hv' | ⟨hv', -⟩ <;>
    rw [hv] at hv' <;> simp only [List.cons.injEq, and_true] at hv' <;> simp [hv']

theorem EmbedsIn.value {v : IPv6} {h l : Fin 65536} (hv : EmbedsIn v h l) :
    v.value = 0xffff * 2 ^ 32 + (h * 65536 + l) ∨ v.value = h * 65536 + l ∧ 65536 ≤ v.value := by
  rcases hv with hv | ⟨hv, hh⟩
  · rw [v.value_eq hv]
    refine Or.inl ?_
    norm_num
    omega
  · have hpos : (h : ℕ) ≠ 0 := fun hzero => hh (Fin.ext hzero)
    rw [v.value_eq hv]
    refine Or.inr ?_
    norm_num
    omega

/-- A dotted form, with the address that it embeds. -/
theorem reads_dotted {v : IPv6} {h l : Fin 65536} {tail : List Char} (hv : EmbedsIn v h l)
    (hdot : '.' ∈ tail)
    (hoctets : ipv6EmbeddedIPv4Octets (':' :: ':' :: tail) = some (octetsOf (ofGroups h l))) :
    Reads v (':' :: ':' :: tail) := by
  have hvalue := hv.value
  have hnot {form : List Char} (hform : '.' ∉ form) : ':' :: ':' :: tail ≠ form := by
    rintro rfl
    exact hform (List.mem_cons_of_mem _ (List.mem_cons_of_mem _ hdot))
  refine ⟨?_, ?_, ?_, ?_, fun octets => ?_⟩
  · rw [ipv6LinkLocal, lit, test_of_colon (by decide), InBlock]
    refine iff_of_false Bool.false_ne_true fun hblock => ?_
    norm_num at hblock
    omega
  · rw [List.contains_iff_mem]
    refine iff_of_false (fun hmem => ?_) (by omega)
    simp only [ipv6ImdsForms, List.mem_cons, List.not_mem_nil, or_false] at hmem
    rcases hmem with hmem | hmem | hmem <;> exact hnot (by decide) hmem
  · rw [Bool.or_eq_true, beq_iff_eq, beq_iff_eq]
    refine iff_of_false ?_ (by omega)
    rintro (hmem | hmem) <;> exact hnot (by decide) hmem
  · rw [ipv6UniqueLocal, lit, test_of_colon (by decide), InBlock]
    refine iff_of_false Bool.false_ne_true fun hblock => ?_
    norm_num at hblock
    omega
  · rw [hoctets, Option.some.injEq]
    constructor
    · rintro rfl
      exact ⟨h, l, hv, rfl⟩
    · rintro ⟨h', l', hv', rfl⟩
      obtain ⟨rfl, rfl⟩ := hv.inj hv'
      rfl

theorem dot_mem_text (w : IPv4) : '.' ∈ w.text := dot_mem_of_decomposes (decomposes_text w)

theorem reads_dottedText (v : IPv6) : Reads v v.dottedText := by
  rcases dottedText_cases v with hsame | ⟨h, l, hv, hh, htext⟩ | ⟨h, l, hv, htext⟩
  · rw [hsame]
    exact reads_text v
  · rw [htext]
    exact reads_dotted (Or.inr ⟨hv, hh⟩) (dot_mem_text _) (octets_compatible _)
  · rw [htext]
    exact reads_dotted (Or.inl hv) (by simp [dot_mem_text]) (octets_mapped _)

/-- A zone is left out. -/
theorem addr_eq {text zone : List Char} (hplain : ∀ c ∈ text, c.toLower = c ∧ c ≠ '%')
    (hzone : IsZone zone) : (((text ++ zone).map Char.toLower).splitOn '%').headD [] = text := by
  have hlower : text.map Char.toLower = text :=
    (List.map_congr_left fun c hc => (hplain c hc).1).trans (List.map_id _)
  have hpercent : '%' ∉ text := fun h => (hplain _ h).2 rfl
  rw [List.map_append, hlower]
  rcases hzone with rfl | ⟨zone, rfl⟩
  · rw [List.map_nil, List.append_nil, List.splitOn_eq_singleton hpercent]
    rfl
  · rw [List.map_cons, show Char.toLower '%' = '%' by decide,
      List.splitOn_append_cons_self_of_not_mem hpercent]
    rfl

/-- What the guard rejects. -/
theorem isBlockedIPv6Address_iff {v : IPv6} {text zone : List Char} (hreads : Reads v text)
    (hplain : ∀ c ∈ text, c.toLower = c ∧ c ≠ '%') (hzone : IsZone zone)
    (policy : UrlGuardPolicy) :
    isBlockedIPv6Address (text ++ zone) policy = true ↔
      InBlock 128 (0xfe80 * 2 ^ 112) 10 v.value ∨
        v.value = 0xfd00 * 2 ^ 112 + 0xec2 * 2 ^ 96 + 0x254 ∨
        policy.allowLoopback = false ∧ (v.value = 1 ∨ v.value = 0) ∨
        policy.allowPrivate = false ∧ InBlock 128 (0xfc00 * 2 ^ 112) 7 v.value ∨
        ∃ h l, EmbedsIn v h l ∧ BlockedV4 policy (ofGroups h l) := by
  have hoctets : (match ipv6EmbeddedIPv4Octets text with
      | some embeddedV4 => isBlockedIPv4 embeddedV4 policy
      | none => false) = true ↔ ∃ h l, EmbedsIn v h l ∧ BlockedV4 policy (ofGroups h l) := by
    cases hfound : ipv6EmbeddedIPv4Octets text with
    | none =>
      refine iff_of_false Bool.false_ne_true ?_
      rintro ⟨h, l, hv, -⟩
      have hsome := (hreads.octets _).2 ⟨h, l, hv, rfl⟩
      rw [hfound] at hsome
      cases hsome
    | some octets =>
      obtain ⟨h, l, hv, rfl⟩ := (hreads.octets octets).1 hfound
      dsimp only
      rw [isBlockedIPv4_iff]
      constructor
      · exact fun hblocked => ⟨h, l, hv, hblocked⟩
      · rintro ⟨h', l', hv', hblocked⟩
        obtain ⟨rfl, rfl⟩ := hv.inj hv'
        exact hblocked
  rw [isBlockedIPv6Address, addr_eq hplain hzone, Bool.or_eq_true, Bool.or_eq_true,
    Bool.or_eq_true, Bool.or_eq_true, Bool.and_eq_true, Bool.and_eq_true, hoctets,
    hreads.linkLocal, hreads.imds, hreads.loopback, hreads.uniqueLocal, Bool.not_eq_true',
    Bool.not_eq_true', or_assoc, or_assoc, or_assoc]

/-! ## The addresses that are missed -/

theorem exists_ofGroups (w : IPv4) : ∃ h l, w = ofGroups h l := by
  obtain ⟨a, b, c, d⟩ := w
  refine ⟨⟨a * 256 + b, by omega⟩, ⟨c * 256 + d, by omega⟩, ?_⟩
  simp only [ofGroups, IPv4.mk.injEq, Fin.ext_iff]
  omega

theorem value_ofGroups (h l : Fin 65536) : (ofGroups h l).value = h * 65536 + l := by
  rw [IPv4.value, ofGroups]
  dsimp only
  omega

theorem groups_iff (v : IPv6) (f h l : Fin 65536) :
    v.groups = [0, 0, 0, 0, 0, f, h, l] ↔ v.value = f * 2 ^ 32 + (h * 65536 + l) := by
  have hvalue : IPv6.value ⟨[0, 0, 0, 0, 0, f, h, l], rfl⟩ = f * 2 ^ 32 + (h * 65536 + l) := by
    rw [IPv6.value_eq rfl]
    norm_num
    omega
  rw [← hvalue]
  constructor
  · exact fun hv => (IPv6.value_eq hv).trans (IPv6.value_eq rfl).symm
  · exact fun hv => congrArg IPv6.groups (value_inj hv)

/-- An address embeds another one in two groups, or in one, which the guard does not see. -/
theorem embeds_iff (v : IPv6) (h l : Fin 65536) : Embeds v (ofGroups h l) ↔
    EmbedsIn v h l ∨ h = 0 ∧ v.value = l ∧ 2 ≤ v.value := by
  have hcompat := groups_iff v 0 h l
  rw [Fin.val_zero, Nat.zero_mul, Nat.zero_add] at hcompat
  have hmapped : v.groups = [0, 0, 0, 0, 0, 0xffff, h, l] ↔
      v.value = 0xffff * 2 ^ 32 + (h * 65536 + l) := groups_iff v 0xffff h l
  rw [Embeds, EmbedsIn, value_ofGroups, hmapped, hcompat, or_assoc]
  refine or_congr_right ?_
  by_cases hh : h = 0
  · subst hh
    simp
  · have hpos : (h : ℕ) ≠ 0 := fun hzero => hh (Fin.ext hzero)
    simp only [hh, false_and, or_false, not_false_eq_true, Ne, and_true]
    omega

/-- Addresses of the first block are private. -/
theorem blockedV4_zero (policy : UrlGuardPolicy) (l : Fin 65536) :
    BlockedV4 policy (ofGroups 0 l) ↔ policy.allowPrivate = false := by
  rw [← isBlockedIPv4_iff]
  simp [isBlockedIPv4, isLinkLocalOrSharedNatIPv4, isLoopbackIPv4, isPrivateIPv4, octetsOf,
    ofGroups]

/-- An address is to be rejected when the guard finds it to be, or it is one that is missed. -/
theorem blockedV6_iff (v : IPv6) (policy : UrlGuardPolicy) : BlockedV6 policy v ↔
    (InBlock 128 (0xfe80 * 2 ^ 112) 10 v.value ∨
        v.value = 0xfd00 * 2 ^ 112 + 0xec2 * 2 ^ 96 + 0x254 ∨
        policy.allowLoopback = false ∧ (v.value = 1 ∨ v.value = 0) ∨
        policy.allowPrivate = false ∧ InBlock 128 (0xfc00 * 2 ^ 112) 7 v.value ∨
        ∃ h l, EmbedsIn v h l ∧ BlockedV4 policy (ofGroups h l)) ∨
      Missed policy (.v6 v) := by
  have hembeds : (∃ w, Embeds v w ∧ BlockedV4 policy w) ↔
      (∃ h l, EmbedsIn v h l ∧ BlockedV4 policy (ofGroups h l)) ∨ Missed policy (.v6 v) := by
    constructor
    · rintro ⟨w, hw, hblocked⟩
      obtain ⟨h, l, rfl⟩ := exists_ofGroups w
      rcases (embeds_iff v h l).1 hw with hin | ⟨rfl, hvalue, htwo⟩
      · exact Or.inl ⟨h, l, hin, hblocked⟩
      · exact Or.inr ⟨(blockedV4_zero policy l).1 hblocked, htwo, by omega⟩
    · rintro (⟨h, l, hin, hblocked⟩ | ⟨hpolicy, htwo, hsmall⟩)
      · exact ⟨_, (embeds_iff v h l).2 (Or.inl hin), hblocked⟩
      · refine ⟨ofGroups 0 ⟨v.value, hsmall⟩, (embeds_iff v 0 _).2 (Or.inr ⟨rfl, rfl, htwo⟩), ?_⟩
        exact (blockedV4_zero policy _).2 hpolicy
  rw [BlockedV6, hembeds]
  simp only [or_assoc]

/-- What the guard finds is not missed. -/
theorem not_missed {v : IPv6} {policy : UrlGuardPolicy}
    (h : InBlock 128 (0xfe80 * 2 ^ 112) 10 v.value ∨
      v.value = 0xfd00 * 2 ^ 112 + 0xec2 * 2 ^ 96 + 0x254 ∨
      policy.allowLoopback = false ∧ (v.value = 1 ∨ v.value = 0) ∨
      policy.allowPrivate = false ∧ InBlock 128 (0xfc00 * 2 ^ 112) 7 v.value ∨
      ∃ h l, EmbedsIn v h l ∧ BlockedV4 policy (ofGroups h l)) : ¬ Missed policy (.v6 v) := by
  rintro ⟨-, htwo, hsmall⟩
  rcases h with h | h | ⟨-, h⟩ | ⟨-, h⟩ | ⟨h, l, hv, -⟩
  · rw [InBlock] at h
    norm_num at h
    omega
  · omega
  · omega
  · rw [InBlock] at h
    norm_num at h
    omega
  · have := hv.value
    omega

/-! ## The guard -/

/-- The guard does not change the letters of a printed address. -/
theorem plain_text (v : IPv6) : ∀ c ∈ v.text, c.toLower = c ∧ c ≠ '%' := by
  intro c hc
  rcases IPv6.mem_text hc with rfl | ⟨d, rfl⟩
  · decide
  · have hall : ∀ d : Fin 16, (d : ℕ).digitChar.toLower = (d : ℕ).digitChar ∧
        (d : ℕ).digitChar ≠ '%' := by decide
    exact hall d

theorem plain_ipv4 (v : IPv4) : ∀ c ∈ v.text, c.toLower = c ∧ c ≠ '%' := by
  intro c hc
  rcases IPv4.mem_text hc with rfl | ⟨d, rfl⟩
  · decide
  · have hall : ∀ d : Fin 16, (d : ℕ).digitChar.toLower = (d : ℕ).digitChar ∧
        (d : ℕ).digitChar ≠ '%' := by decide
    exact hall d

theorem plain_dottedText (v : IPv6) : ∀ c ∈ v.dottedText, c.toLower = c ∧ c ≠ '%' := by
  rcases dottedText_cases v with hsame | ⟨h, l, -, -, htext⟩ | ⟨h, l, -, htext⟩
  · rw [hsame]
    exact plain_text v
  · rw [htext]
    simp only [List.forall_mem_cons]
    exact ⟨by decide, by decide, plain_ipv4 _⟩
  · rw [htext]
    simp only [List.forall_mem_cons]
    exact ⟨by decide, by decide, by decide, by decide, by decide, by decide, by decide,
      plain_ipv4 _⟩

/-- On every address but those missed, the guard rejects the printed form exactly when it is to be
rejected. -/
theorem isAllowed_iff {v : IPv6} {text zone : List Char} (hreads : Reads v text)
    (hplain : ∀ c ∈ text, c.toLower = c ∧ c ≠ '%') (hcolon : ':' ∈ text) (hzone : IsZone zone)
    (policy : UrlGuardPolicy) : isAllowedIpAddress (text ++ zone) policy = false ↔
      BlockedV6 policy v ∧ ¬ Missed policy (.v6 v) := by
  rw [isAllowedIpAddress, ipv4Octets_of_colon (List.mem_append_left _ hcolon)]
  dsimp only
  rw [Bool.not_eq_false', isBlockedIPv6Address_iff hreads hplain hzone, blockedV6_iff]
  constructor
  · exact fun h => ⟨Or.inl h, not_missed h⟩
  · exact fun ⟨h, hmissed⟩ => h.resolve_right hmissed

theorem colon_mem_text (v : IPv6) : ':' ∈ v.text := by
  obtain ⟨g, rest, piece, tail, -, htext, -⟩ := text_eq v
  rw [htext]
  exact List.mem_append_right _ List.mem_cons_self

theorem colon_mem_dottedText (v : IPv6) : ':' ∈ v.dottedText := by
  rcases dottedText_cases v with hsame | ⟨h, l, -, -, htext⟩ | ⟨h, l, -, htext⟩
  · rw [hsame]
    exact colon_mem_text v
  · rw [htext]
    exact List.mem_cons_self
  · rw [htext]
    exact List.mem_cons_self

/-- The host of a URL is taken as the address without its brackets. -/
theorem isAllowedHttpUrl_iff {newUrl : String → Option Url} {value protocol : String} {v : IPv6}
    (hurl : newUrl value = some ⟨protocol, (Ip.v6 v).host⟩)
    (hprotocol : protocol = "http:" ∨ protocol = "https:") (policy : UrlGuardPolicy) :
    isAllowedHttpUrl newUrl value policy = isAllowedIpAddress v.text policy := by
  have hhttp : ¬ (protocol ≠ "http:" ∧ protocol ≠ "https:") := by tauto
  have hcolon : ':' ∈ (Ip.v6 v).host := by simp [Ip.host, colon_mem_text]
  have hlast : ((Ip.v6 v).host.getLast? == some ']') = true := by
    rw [Ip.host, List.getLast?_concat]
    rfl
  have hhead : ((Ip.v6 v).host.head? == some '[') = true := rfl
  have hinner : (Ip.v6 v).host.tail.dropLast = v.text := by simp [Ip.host]
  rw [isAllowedHttpUrl, hurl]
  dsimp only
  rw [if_neg hhttp, ipv4Octets_of_colon hcolon, if_neg (by simp), isBlockedIPv6, hlast, hhead,
    hinner, isAllowedIpAddress, ipv4Octets_of_colon (colon_mem_text v)]
  rfl

theorem isAllowedHttpUrl_v4 {newUrl : String → Option Url} {value protocol : String} {v : IPv4}
    (hurl : newUrl value = some ⟨protocol, v.text⟩)
    (hprotocol : protocol = "http:" ∨ protocol = "https:") (policy : UrlGuardPolicy) :
    isAllowedHttpUrl newUrl value policy = !isBlockedIPv4 (octetsOf v) policy := by
  have hhttp : ¬ (protocol ≠ "http:" ∧ protocol ≠ "https:") := by tauto
  have hhead : isBlockedIPv6 v.text policy = false := by
    have hbracket : (v.text.head? == some '[') = false := by
      rw [beq_eq_false_iff_ne]
      intro h
      rcases IPv4.mem_text (List.mem_of_head? h) with h | ⟨d, h⟩
      · exact absurd h (by decide)
      · have hall : ∀ d : Fin 16, '[' ≠ (d : ℕ).digitChar := by decide
        exact hall d h
    rw [isBlockedIPv6, hbracket]
    rfl
  rw [isAllowedHttpUrl, hurl]
  dsimp only
  rw [if_neg hhttp, ipv4Octets_text, hhead]
  cases h : isBlockedIPv4 (octetsOf v) policy <;> simp [h]

/-- The guard is exact on every address but those missed. -/
theorem exact_iff (policy : UrlGuardPolicy) (ip : Ip) :
    Exact policy ip ↔ ¬ Missed policy ip := by
  cases ip with
  | v4 v =>
    refine iff_of_true ⟨fun text htext => ?_, fun newUrl value protocol hurl hprotocol => ?_⟩ id
    · cases htext
      rw [isAllowedIpAddress, ipv4Octets_text]
      dsimp only
      rw [Bool.not_eq_false', isBlockedIPv4_iff, Blocked]
    · rw [isAllowedHttpUrl_v4 hurl hprotocol, Bool.not_eq_false', isBlockedIPv4_iff, Blocked]
  | v6 v =>
    have htext {zone : List Char} (hzone : IsZone zone) :=
      isAllowed_iff (reads_text v) (plain_text v) (colon_mem_text v) hzone policy
    have hdotted {zone : List Char} (hzone : IsZone zone) :=
      isAllowed_iff (reads_dottedText v) (plain_dottedText v) (colon_mem_dottedText v) hzone policy
    constructor
    · intro hexact hmissed
      have hblocked : Blocked policy (.v6 v) := (blockedV6_iff v policy).2 (Or.inr hmissed)
      have hrejected := (hexact.address _ (.canonical v [] (Or.inl rfl))).2 hblocked
      exact ((htext (Or.inl rfl)).1 hrejected).2 hmissed
    · intro hmissed
      refine ⟨fun text hprinted => ?_, fun newUrl value protocol hurl hprotocol => ?_⟩
      · cases hprinted with
        | canonical _ zone hzone => exact (htext hzone).trans (and_iff_left hmissed)
        | dotted _ zone hzone => exact (hdotted hzone).trans (and_iff_left hmissed)
      · have hbare := htext (Or.inl rfl)
        rw [List.append_nil] at hbare
        rw [isAllowedHttpUrl_iff hurl hprotocol, hbare]
        exact and_iff_left hmissed

/-- `::5` embeds `0.0.0.5`, which the guard rejects in each other form. -/
theorem missed_five : ¬ Exact ⟨false, false⟩ (.v6 ⟨[0, 0, 0, 0, 0, 0, 0, 5], rfl⟩) ∧
    isAllowedIpAddress "::5".toList ⟨false, false⟩ = true ∧
    isAllowedIpAddress "::0.0.0.5".toList ⟨false, false⟩ = false ∧
    isAllowedIpAddress "::ffff:0:5".toList ⟨false, false⟩ = false ∧
    isAllowedIpAddress "0.0.0.5".toList ⟨false, false⟩ = false := by
  have hallowed : isAllowedIpAddress "::5".toList ⟨false, false⟩ = true := by decide +kernel
  have hfive : IPv6.text ⟨[0, 0, 0, 0, 0, 0, 0, 5], rfl⟩ = "::5".toList := by decide +kernel
  have hembeds : Embeds ⟨[0, 0, 0, 0, 0, 0, 0, 5], rfl⟩ (ofGroups 0 5) :=
    Or.inr (by decide +kernel)
  have hblocked : BlockedV4 ⟨false, false⟩ (ofGroups 0 5) :=
    (blockedV4_zero ⟨false, false⟩ 5).2 rfl
  refine ⟨fun hexact => ?_, hallowed, by decide +kernel, by decide +kernel, by decide +kernel⟩
  have hrejected := (hexact.address _ (.canonical _ [] (Or.inl rfl))).2
    (Or.inr (Or.inr (Or.inr (Or.inr ⟨_, hembeds, hblocked⟩))))
  rw [hfive, List.append_nil, hallowed] at hrejected
  cases hrejected

end UrlGuard
end Mullion
