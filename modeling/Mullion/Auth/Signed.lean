import Mathlib.Data.Rat.Defs
import Mathlib.Algebra.Order.Field.Rat
import Mathlib.Tactic.NormNum
import Mullion.Text

/-!
# Signed values

Four kinds of value share one key and one format: the session and the login-transaction cookie of
`auth.ts`, and the bootstrap token and the cookie of `preview-auth.ts`, all made by
`signed-payload.ts`. A verifier should accept what was minted for it and nothing else. How a payload
becomes text is a parameter, the `Wire`: `JSON.stringify` with base64url, and `sign` and `unsign` of
`@fastify/cookie`. What is assumed of it is that the values in circulation are those that were
minted (`Wire.Sealed`).

A verifier then sees the payload that was signed, and only its shape can tell the kinds apart. The
session and the transaction have shapes of their own. The two preview kinds sign the same payload,
so a token that is presented as the cookie is good for a day and not for a minute
(`token_taken_for_cookie`). `own_kind_iff` has that this is the only way: each verifier accepts its
own kind only, exactly if no preview value is presented for the other preview's (`Unmixed`).
-/

namespace Mullion
namespace Signed

/-- A decoded JSON value. -/
inductive Json
  | null
  | bool (value : Bool)
  | num (value : ℚ)
  | str (value : String)
  | arr (items : List Json)
  | obj (fields : List (String × Json))

/-- Reading a property. -/
def Json.field (name : String) : Json → Option Json
  | .obj fields => (fields.find? (·.1 = name)).map Prod.snd
  | _ => none

def Json.isStr : Option Json → Bool
  | some (.str _) => true
  | _ => false

def Json.isNum : Option Json → Bool
  | some (.num _) => true
  | _ => false

def Json.isTrue : Option Json → Bool
  | some (.bool b) => b
  | _ => false

/-- `candidate.issuedAt`, of a value whose shape was checked. -/
def Json.issuedAt (value : Json) : ℚ :=
  match value.field "issuedAt" with
  | some (.num t) => t
  | _ => 0

/-- The text of a payload and its signature. -/
structure Wire where
  /-- `Buffer.from(JSON.stringify(payload)).toString("base64url")` -/
  encode : Json → String
  /-- `JSON.parse(Buffer.from(text, "base64url").toString("utf8"))`; `none` is a throw -/
  decode : String → Option Json
  /-- `fastifyCookie.sign` -/
  sign : String → String → String
  /-- `fastifyCookie.unsign`; `none` is a signature that is not valid -/
  unsign : String → String → Option String

variable (w : Wire)

/-- `CLOCK_SKEW_TOLERANCE_MS`. -/
def clockSkewToleranceMs : ℚ := 5 * 60 * 1000

/-- `SESSION_MAX_AGE_MS`. -/
def sessionMaxAgeMs : ℚ := 30 * 24 * 60 * 60 * 1000

/-- `OIDC_TXN_MAX_AGE_MS`. -/
def oidcTxnMaxAgeMs : ℚ := 10 * 60 * 1000

/-- `PREVIEW_TOKEN_MAX_AGE_MS`. -/
def previewTokenMaxAgeMs : ℚ := 60 * 1000

/-- `PREVIEW_COOKIE_MAX_AGE_SECONDS * 1000`. -/
def previewCookieMaxAgeMs : ℚ := 24 * 60 * 60 * 1000

/-- `PREVIEW_COOKIE_REFRESH_AGE_MS`. -/
def previewCookieRefreshAgeMs : ℚ := previewCookieMaxAgeMs / 2

/-- `signPayload`. -/
def signPayload (secret : String) (payload : Json) : String := w.sign (w.encode payload) secret

/-- `verifySignedPayload`. -/
def verifySignedPayload (secret : String) (raw : Option String) (maxAgeMs : ℚ)
    (isValidShape : Json → Bool) (now : ℤ) : Option Json :=
  match raw with
  | none => none
  | some raw =>
    if secret = "" ∨ raw = "" then none
    else
      match w.unsign raw secret with
      | none => none
      | some value =>
        match w.decode value with
        | none => none
        | some parsed =>
          if ¬ isValidShape parsed then none
          else if maxAgeMs < now - parsed.issuedAt then none
          else if now - parsed.issuedAt < -clockSkewToleranceMs then none
          else some parsed

/-- The value of a named cookie, from the pieces of the header. -/
def findCookie (name : String) : List (List Char) → Option String
  | [] => none
  | part :: rest =>
    if '=' ∉ part then findCookie name rest
    else if Text.trim (String.ofList (part.takeWhile (· ≠ '='))) ≠ name then findCookie name rest
    else Text.decodeURIComponent (Text.trim (String.ofList ((part.dropWhile (· ≠ '=')).drop 1)))

/-- `parseCookieHeader`. -/
def parseCookieHeader (cookieHeader : Option String) (name : String) : Option String :=
  match cookieHeader with
  | none => none
  | some header => if header = "" then none else findCookie name (header.toList.splitOn ';')

/-! ## The kinds -/

/-- A mint operation, with the clock when it ran. -/
inductive Mint
  /-- `createSessionCookieValue` -/
  | session (identity : Option Json) (time : ℤ)
  /-- `createOidcTxnCookieValue` of what `buildOidcAuthorizationUrl` returned -/
  | oidcTxn (url codeVerifier state nonce : String) (time : ℤ)
  /-- `mintPreviewToken` -/
  | previewToken (slug : String) (time : ℤ)
  /-- `mintPreviewCookie` -/
  | previewCookie (slug : String) (time : ℤ)

def Mint.time : Mint → ℤ
  | .session _ t | .oidcTxn _ _ _ _ t | .previewToken _ t | .previewCookie _ t => t

/-- What a mint operation signs. -/
def Mint.payload : Mint → Json
  | .session identity t =>
    .obj ([("authenticated", .bool true), ("issuedAt", .num t)] ++
      identity.toList.map fun i => ("identity", i))
  | .oidcTxn url codeVerifier state nonce t =>
    .obj [("url", .str url), ("codeVerifier", .str codeVerifier), ("state", .str state),
      ("nonce", .str nonce), ("issuedAt", .num t)]
  | .previewToken slug t => .obj [("slug", .str slug), ("issuedAt", .num t)]
  | .previewCookie slug t => .obj [("slug", .str slug), ("issuedAt", .num t)]

/-- The value it returns. -/
def Mint.value (secret : String) (m : Mint) : String := signPayload w secret m.payload

/-- `isValidSessionPayload`. -/
def isValidSessionPayload (value : Json) : Bool :=
  Json.isTrue (value.field "authenticated") && Json.isNum (value.field "issuedAt")

/-- `isValidOidcTxnPayload`. -/
def isValidOidcTxnPayload (value : Json) : Bool :=
  Json.isStr (value.field "codeVerifier") && Json.isStr (value.field "state") &&
    Json.isStr (value.field "nonce") && Json.isNum (value.field "issuedAt")

/-- `isValidPreviewSlugPayload`. -/
def isValidPreviewSlugPayload (value : Json) : Bool :=
  Json.isStr (value.field "slug") && Json.isNum (value.field "issuedAt")

/-- `SESSION_COOKIE_NAME`. -/
def sessionCookieName : String := "mullion_session"

/-- `OIDC_TXN_COOKIE_NAME`. -/
def oidcTxnCookieName : String := "mullion_oidc_txn"

/-- `PREVIEW_COOKIE_NAME`. -/
def previewCookieName : String := "mullion_preview"

/-- `getValidSessionPayload`. -/
def getValidSessionPayload (secret : String) (cookieHeader : Option String) (now : ℤ) :
    Option Json :=
  verifySignedPayload w secret (parseCookieHeader cookieHeader sessionCookieName)
    sessionMaxAgeMs isValidSessionPayload now

/-- `readOidcTxnCookieValue`. -/
def readOidcTxnCookieValue (secret : String) (cookieHeader : Option String) (now : ℤ) :
    Option Json :=
  verifySignedPayload w secret (parseCookieHeader cookieHeader oidcTxnCookieName)
    oidcTxnMaxAgeMs isValidOidcTxnPayload now

/-- `payload.slug === slug`. -/
def Json.hasSlug (slug : String) (payload : Json) : Bool :=
  match payload.field "slug" with
  | some (.str s) => s = slug
  | _ => false

/-- `verifyPreviewToken`. -/
def verifyPreviewToken (secret : String) (raw : Option String) (slug : String) (now : ℤ) : Bool :=
  (verifySignedPayload w secret raw previewTokenMaxAgeMs isValidPreviewSlugPayload now).any
    (Json.hasSlug slug)

/-- `PreviewCookieCheck`. -/
structure PreviewCookieCheck where
  valid : Bool
  shouldRefresh : Bool
  deriving DecidableEq, Repr

/-- `checkPreviewCookie`; the clock is read again for the refresh. -/
def checkPreviewCookie (secret : String) (cookieHeader : Option String) (slug : String)
    (now later : ℤ) : PreviewCookieCheck :=
  match verifySignedPayload w secret (parseCookieHeader cookieHeader previewCookieName)
    previewCookieMaxAgeMs isValidPreviewSlugPayload now with
  | none => ⟨false, false⟩
  | some payload =>
    if payload.hasSlug slug then
      ⟨true, previewCookieRefreshAgeMs < later - payload.issuedAt⟩
    else ⟨false, false⟩

/-! ## The values in circulation -/

variable {w : Wire} {secret : String} {mints : List Mint}

/-- Whatever carries a valid signature was minted, and what was minted can be read back. -/
structure Wire.Sealed (w : Wire) (secret : String) (mints : List Mint) : Prop where
  unforged : ∀ raw text, w.unsign raw secret = some text → ∃ m ∈ mints, raw = m.value w secret
  signed : ∀ m ∈ mints, m.value w secret ≠ "" ∧
    w.unsign (m.value w secret) secret = some (w.encode m.payload)
  decoded : ∀ m ∈ mints, w.decode (w.encode m.payload) = some m.payload

/-- `-5 min ≤ now - time ≤ maxAgeMs`. -/
def InWindow (maxAgeMs : ℚ) (now time : ℤ) : Prop :=
  -clockSkewToleranceMs ≤ (now : ℚ) - time ∧ (now : ℚ) - time ≤ maxAgeMs

@[simp] theorem issuedAt_payload (m : Mint) : m.payload.issuedAt = m.time := by
  cases m <;> simp [Mint.payload, Mint.time, Json.issuedAt, Json.field]

/-- Minted values that are equal carry equal payloads. -/
theorem Wire.Sealed.payload_eq (h : w.Sealed secret mints) {m m' : Mint} (hm : m ∈ mints)
    (hm' : m' ∈ mints) (hv : m.value w secret = m'.value w secret) : m.payload = m'.payload := by
  have htext := (h.signed m hm).2
  rw [hv, (h.signed m' hm').2, Option.some.injEq] at htext
  have hdec := h.decoded m hm
  rw [← htext, h.decoded m' hm', Option.some.injEq] at hdec
  exact hdec.symm

/-- **What is accepted was minted**, has the shape that was asked for, and is of an age
within the window. -/
theorem verifySignedPayload_eq_some (h : w.Sealed secret mints) {raw : Option String}
    {maxAgeMs : ℚ} {isValidShape : Json → Bool} {now : ℤ} {payload : Json} :
    verifySignedPayload w secret raw maxAgeMs isValidShape now = some payload ↔
      secret ≠ "" ∧ ∃ m ∈ mints, raw = some (m.value w secret) ∧ payload = m.payload ∧
        isValidShape m.payload = true ∧ InWindow maxAgeMs now m.time := by
  cases raw with
  | none => simp [verifySignedPayload]
  | some raw =>
    by_cases hs : secret = ""
    · simp [verifySignedPayload, hs]
    · by_cases hminted : ∃ m ∈ mints, raw = m.value w secret
      · obtain ⟨m, hm, rfl⟩ := hminted
        obtain ⟨hne, hunsign⟩ := h.signed m hm
        have haccept : verifySignedPayload w secret (some (m.value w secret)) maxAgeMs
            isValidShape now = some payload ↔
            isValidShape m.payload = true ∧ InWindow maxAgeMs now m.time ∧
              m.payload = payload := by
          simp only [verifySignedPayload, hs, hne, or_self, if_false, hunsign, h.decoded m hm,
            issuedAt_payload, InWindow]
          split
          · simp_all
          · split
            · rename_i hlate
              simp [not_le.2 hlate]
            · split
              · rename_i hearly
                simp [not_le.2 hearly]
              · simp_all
        rw [haccept]
        constructor
        · rintro ⟨hshape, hwin, rfl⟩
          exact ⟨hs, m, hm, rfl, rfl, hshape, hwin⟩
        · rintro ⟨-, m', hm', hv, rfl, hshape, hwin⟩
          have hp := h.payload_eq hm hm' (Option.some.inj hv)
          have ht : m.time = m'.time := by
            have := congrArg Json.issuedAt hp
            simpa using this
          rw [hp, ht]
          exact ⟨hshape, hwin, rfl⟩
      · have hnone : w.unsign raw secret = none := by
          rcases Option.eq_none_or_eq_some (w.unsign raw secret) with hn | ⟨text, ht⟩
          · exact hn
          · exact absurd (h.unforged raw text ht) hminted
        constructor
        · intro hacc
          simp [verifySignedPayload, hnone] at hacc
        · rintro ⟨-, m, hm, hv, -⟩
          exact absurd ⟨m, hm, Option.some.inj hv⟩ hminted

/-! ## The shapes -/

/-- Only a session value has the shape of a session. -/
theorem session_shape {m : Mint} (h : isValidSessionPayload m.payload = true) :
    ∃ identity t, m = .session identity t := by
  cases m with
  | session identity t => exact ⟨identity, t, rfl⟩
  | oidcTxn | previewToken | previewCookie =>
    simp [isValidSessionPayload, Mint.payload, Json.field, Json.isTrue] at h

/-- Only a login transaction has the shape of one. -/
theorem oidcTxn_shape {m : Mint} (h : isValidOidcTxnPayload m.payload = true) :
    ∃ url codeVerifier state nonce t, m = .oidcTxn url codeVerifier state nonce t := by
  cases m with
  | oidcTxn url codeVerifier state nonce t => exact ⟨url, codeVerifier, state, nonce, t, rfl⟩
  | session identity t =>
    cases identity <;> simp [isValidOidcTxnPayload, Mint.payload, Json.field, Json.isStr] at h
  | previewToken | previewCookie =>
    simp [isValidOidcTxnPayload, Mint.payload, Json.field, Json.isStr] at h

/-- The two preview kinds have one shape. -/
theorem preview_shape {m : Mint} {slug : String} :
    (isValidPreviewSlugPayload m.payload = true ∧ m.payload.hasSlug slug = true) ↔
      ∃ t, m = .previewToken slug t ∨ m = .previewCookie slug t := by
  cases m with
  | session identity t =>
    cases identity <;> simp [isValidPreviewSlugPayload, Mint.payload, Json.field, Json.isStr]
  | oidcTxn => simp [isValidPreviewSlugPayload, Mint.payload, Json.field, Json.isStr]
  | previewToken | previewCookie =>
    simp [isValidPreviewSlugPayload, Mint.payload, Json.field, Json.isStr, Json.isNum,
      Json.hasSlug]

/-- What a preview verifier accepts. -/
theorem preview_accepts (h : w.Sealed secret mints) {raw : Option String} {maxAgeMs : ℚ}
    {slug : String} {now : ℤ} :
    (verifySignedPayload w secret raw maxAgeMs isValidPreviewSlugPayload now).any
        (Json.hasSlug slug) = true ↔
      secret ≠ "" ∧ ∃ m ∈ mints, raw = some (m.value w secret) ∧ InWindow maxAgeMs now m.time ∧
        ∃ t, m = .previewToken slug t ∨ m = .previewCookie slug t := by
  constructor
  · intro hacc
    rw [Option.any_eq_true] at hacc
    obtain ⟨payload, hpayload, hslug⟩ := hacc
    obtain ⟨hs, m, hm, hraw, rfl, hshape, hwin⟩ := (verifySignedPayload_eq_some h).1 hpayload
    exact ⟨hs, m, hm, hraw, hwin, preview_shape.1 ⟨hshape, hslug⟩⟩
  · rintro ⟨hs, m, hm, hraw, hwin, hkind⟩
    obtain ⟨hshape, hslug⟩ := preview_shape.2 hkind
    rw [(verifySignedPayload_eq_some h).2 ⟨hs, m, hm, hraw, rfl, hshape, hwin⟩]
    exact hslug

theorem checkPreviewCookie_valid (secret : String) (cookieHeader : Option String) (slug : String)
    (now later : ℤ) : (checkPreviewCookie w secret cookieHeader slug now later).valid =
      (verifySignedPayload w secret (parseCookieHeader cookieHeader previewCookieName)
        previewCookieMaxAgeMs isValidPreviewSlugPayload now).any (Json.hasSlug slug) := by
  unfold checkPreviewCookie
  cases verifySignedPayload w secret (parseCookieHeader cookieHeader previewCookieName)
    previewCookieMaxAgeMs isValidPreviewSlugPayload now with
  | none => rfl
  | some payload => cases h : payload.hasSlug slug <;> simp [h]

/-! ## Main result -/

/-- The value of a preview tells the slug and the time of its mint, and not the kind. -/
theorem preview_time (h : w.Sealed secret mints) {t t' : ℤ} {m m' : Mint}
    (hm : m ∈ mints) (hm' : m' ∈ mints) (ht : m.time = t) (ht' : m'.time = t')
    (hv : m.value w secret = m'.value w secret) : t = t' := by
  have := congrArg Json.issuedAt (h.payload_eq hm hm' hv)
  rw [issuedAt_payload, issuedAt_payload, ht, ht'] at this
  exact_mod_cast this

/-- Every verifier accepts, at `now`, only a value of its own mint operation, for its slug
and of an age within its window. -/
def OnlyOwn (w : Wire) (secret : String) (mints : List Mint) (cookieHeader raw : Option String)
    (slug : String) (now later : ℤ) : Prop :=
  (∀ p, getValidSessionPayload w secret cookieHeader now = some p → ∃ m ∈ mints,
    parseCookieHeader cookieHeader sessionCookieName = some (m.value w secret) ∧
      (∃ identity, m = .session identity m.time) ∧ InWindow sessionMaxAgeMs now m.time) ∧
  (∀ p, readOidcTxnCookieValue w secret cookieHeader now = some p → ∃ m ∈ mints,
    parseCookieHeader cookieHeader oidcTxnCookieName = some (m.value w secret) ∧
      (∃ url codeVerifier state nonce, m = .oidcTxn url codeVerifier state nonce m.time) ∧
      InWindow oidcTxnMaxAgeMs now m.time) ∧
  (verifyPreviewToken w secret raw slug now = true → ∃ m ∈ mints,
    raw = some (m.value w secret) ∧ m = .previewToken slug m.time ∧
      InWindow previewTokenMaxAgeMs now m.time) ∧
  ((checkPreviewCookie w secret cookieHeader slug now later).valid = true → ∃ m ∈ mints,
    parseCookieHeader cookieHeader previewCookieName = some (m.value w secret) ∧
      m = .previewCookie slug m.time ∧ InWindow previewCookieMaxAgeMs now m.time)

/-- No value of the one preview kind is presented to the verifier of the other while its
age is within that verifier's window, unless the other mint operation ran for the same slug
at the same millisecond. -/
def Unmixed (w : Wire) (secret : String) (mints : List Mint) (cookieHeader raw : Option String)
    (slug : String) (now : ℤ) : Prop :=
  secret = "" ∨
    (∀ t, .previewCookie slug t ∈ mints → raw = some ((Mint.previewCookie slug t).value w secret) →
      InWindow previewTokenMaxAgeMs now t → .previewToken slug t ∈ mints) ∧
    ∀ t, .previewToken slug t ∈ mints →
      parseCookieHeader cookieHeader previewCookieName =
        some ((Mint.previewToken slug t).value w secret) →
      InWindow previewCookieMaxAgeMs now t → .previewCookie slug t ∈ mints

/-- **A signed value is good for its own purpose only**, exactly when no preview value is
presented for the other preview's. -/
theorem own_kind_iff (w : Wire) (secret : String) (mints : List Mint)
    (h : w.Sealed secret mints) (cookieHeader raw : Option String) (slug : String)
    (now later : ℤ) :
    OnlyOwn w secret mints cookieHeader raw slug now later ↔
      Unmixed w secret mints cookieHeader raw slug now := by
  constructor
  · rintro ⟨-, -, htoken, hcookie⟩
    by_cases hs : secret = ""
    · exact .inl hs
    · refine .inr ⟨fun t hm hraw hwin => ?_, fun t hm hraw hwin => ?_⟩
      · obtain ⟨m, hm', hraw', hkind, -⟩ := htoken
          ((preview_accepts h).2 ⟨hs, _, hm, hraw, hwin, t, .inr rfl⟩)
        have ht : t = m.time :=
          preview_time h hm hm' rfl rfl (Option.some.inj (hraw.symm.trans hraw'))
        rw [ht, ← hkind]
        exact hm'
      · rw [checkPreviewCookie_valid] at hcookie
        obtain ⟨m, hm', hraw', hkind, -⟩ := hcookie
          ((preview_accepts h).2 ⟨hs, _, hm, hraw, hwin, t, .inl rfl⟩)
        have ht : t = m.time :=
          preview_time h hm hm' rfl rfl (Option.some.inj (hraw.symm.trans hraw'))
        rw [ht, ← hkind]
        exact hm'
  · intro hunmixed
    refine ⟨fun p hp => ?_, fun p hp => ?_, fun hp => ?_, fun hp => ?_⟩
    · obtain ⟨-, m, hm, hraw, -, hshape, hwin⟩ := (verifySignedPayload_eq_some h).1 hp
      obtain ⟨identity, t, rfl⟩ := session_shape hshape
      exact ⟨_, hm, hraw, ⟨identity, rfl⟩, hwin⟩
    · obtain ⟨-, m, hm, hraw, -, hshape, hwin⟩ := (verifySignedPayload_eq_some h).1 hp
      obtain ⟨url, codeVerifier, state, nonce, t, rfl⟩ := oidcTxn_shape hshape
      exact ⟨_, hm, hraw, ⟨url, codeVerifier, state, nonce, rfl⟩, hwin⟩
    · obtain ⟨hs, m, hm, hraw, hwin, t, rfl | rfl⟩ := (preview_accepts h).1 hp
      · exact ⟨_, hm, hraw, rfl, hwin⟩
      · have hm' := (hunmixed.resolve_left hs).1 t hm hraw hwin
        exact ⟨_, hm', hraw, rfl, hwin⟩
    · rw [checkPreviewCookie_valid] at hp
      obtain ⟨hs, m, hm, hraw, hwin, t, rfl | rfl⟩ := (preview_accepts h).1 hp
      · have hm' := (hunmixed.resolve_left hs).2 t hm hraw hwin
        exact ⟨_, hm', hraw, rfl, hwin⟩
      · exact ⟨_, hm, hraw, rfl, hwin⟩

/-! ## One value in circulation -/

/-- The text of `{"slug":"s","issuedAt":0}`. -/
def singleText : String := "eyJzbHVnIjoicyIsImlzc3VlZEF0IjowfQ"

/-- The same, signed with the key `k`. -/
def singleValue : String := singleText ++ ".nGn2e0SoVDLyHVY9E9mQT6ZaQZGXTnHRx2ZGA9O+6C8"

/-- Nothing else is in circulation. -/
def Wire.single : Wire where
  encode _ := singleText
  decode text :=
    if text = singleText then some (.obj [("slug", .str "s"), ("issuedAt", .num 0)]) else none
  sign _ _ := singleValue
  unsign raw _ := if raw = singleValue then some singleText else none

theorem sealed_single : Wire.single.Sealed "k" [.previewToken "s" 0] where
  unforged := by
    intro raw text hraw
    refine ⟨_, List.mem_singleton_self _, ?_⟩
    simp only [Wire.single] at hraw
    split at hraw
    · rename_i heq
      rw [heq]
      rfl
    · cases hraw
  signed := by
    intro m hm
    cases List.mem_singleton.1 hm
    have hne : singleValue ≠ "" := by decide
    exact ⟨hne, by simp [Mint.value, signPayload, Wire.single]⟩
  decoded := by
    intro m hm
    cases List.mem_singleton.1 hm
    simp [Wire.single, Mint.payload]

/-- A bootstrap token of a minute, an hour later: it is taken for the cookie of a day. -/
theorem token_taken_for_cookie :
    ¬ OnlyOwn Wire.single "k" [.previewToken "s" 0] (some ("mullion_preview=" ++ singleValue))
      none "s" 3600000 3600000 := by
  rintro ⟨-, -, -, hcookie⟩
  have hraw : parseCookieHeader (some ("mullion_preview=" ++ singleValue)) previewCookieName =
      some ((Mint.previewToken "s" 0).value Wire.single "k") := by
    decide +kernel
  have hm : Mint.previewToken "s" 0 ∈ [Mint.previewToken "s" 0] := List.mem_singleton_self _
  have hwin : InWindow previewCookieMaxAgeMs 3600000 (Mint.previewToken "s" 0).time := by
    constructor <;> norm_num [clockSkewToleranceMs, previewCookieMaxAgeMs, Mint.time]
  rw [checkPreviewCookie_valid] at hcookie
  obtain ⟨m, hm', -, hkind, -⟩ := hcookie
    ((preview_accepts sealed_single).2 ⟨by decide, _, hm, hraw, hwin, 0, .inl rfl⟩)
  rw [List.mem_singleton.1 hm'] at hkind
  cases hkind

/-! ## Two kinds in circulation -/

/-- The text of `{"authenticated":true,"issuedAt":0}`. -/
def sessionText : String := "eyJhdXRoZW50aWNhdGVkIjp0cnVlLCJpc3N1ZWRBdCI6MH0"

/-- The same, signed with the key `k`. -/
def sessionValue : String := sessionText ++ ".4tdUcSy61bLAsRGAR0k6XhZtlA2899qodJWmFRRr4xg"

/-- A bootstrap token and a session. -/
def twoMints : List Mint := [.previewToken "s" 0, .session none 0]

/-- Nothing else is in circulation. -/
def Wire.two : Wire where
  encode payload := if Json.isStr (payload.field "slug") then singleText else sessionText
  decode text :=
    if text = singleText then some (Mint.previewToken "s" 0).payload
    else if text = sessionText then some (Mint.session none 0).payload
    else none
  sign text _ := if text = singleText then singleValue else sessionValue
  unsign raw _ :=
    if raw = singleValue then some singleText
    else if raw = sessionValue then some sessionText
    else none

theorem sealed_two : Wire.two.Sealed "k" twoMints where
  unforged := by
    intro raw text hraw
    simp only [Wire.two] at hraw
    split at hraw
    · rename_i heq
      exact ⟨.previewToken "s" 0, List.mem_cons_self, heq⟩
    · split at hraw
      · rename_i heq
        exact ⟨.session none 0, List.mem_cons_of_mem _ List.mem_cons_self, heq⟩
      · cases hraw
  signed := by
    intro m hm
    rcases List.mem_cons.1 hm with rfl | hm
    · exact ⟨by decide, rfl⟩
    · cases List.mem_singleton.1 hm
      exact ⟨by decide, rfl⟩
  decoded := by
    intro m hm
    rcases List.mem_cons.1 hm with rfl | hm
    · rfl
    · cases List.mem_singleton.1 hm
      rfl

def sessionCookie : Option String := some ("mullion_session=" ++ sessionValue)

/-- The token and the session cookie of a browser: the token is good, and nothing is good for
another verifier. -/
theorem own_kind_iff_of_two :
    OnlyOwn Wire.two "k" twoMints sessionCookie (some singleValue) "s" 1000 1000 ∧
      verifyPreviewToken Wire.two "k" (some singleValue) "s" 1000 = true := by
  have hpreview : parseCookieHeader sessionCookie previewCookieName = none := by decide +kernel
  refine ⟨(own_kind_iff Wire.two "k" twoMints sealed_two _ _ "s" 1000 1000).2
    (.inr ⟨fun t hm => ?_, fun t _ hcookie => ?_⟩), ?_⟩
  · simp [twoMints] at hm
  · rw [hpreview] at hcookie
    cases hcookie
  · refine (preview_accepts sealed_two).2
      ⟨by decide, _, List.mem_cons_self, rfl, ⟨?_, ?_⟩, 0, .inl rfl⟩
    · norm_num [clockSkewToleranceMs, Mint.time]
    · norm_num [previewTokenMaxAgeMs, Mint.time]

end Signed
end Mullion
