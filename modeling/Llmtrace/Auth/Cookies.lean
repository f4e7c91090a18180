import Llmtrace.Schemes.Base64
import Llmtrace.Proxy.Redaction

/-! Tokens, cookies and origins (`auth.rs`): what the server draws, what it reads of the headers of a
    request, and from which pages it accepts a request that changes something. -/

namespace Llmtrace.Auth
open Schemes

/-- What is read of a parsed URL. -/
structure AuthUrl where
  scheme : List Char
  host : Option (List Char)
  username : List Char
  password : Option (List Char)
  portOrKnownDefault : Option ℕ

/-- What is used of other crates and of the database: `Url::parse`, `Cookie::split_parse`, SHA-256, and
    Argon2 for a hash that `PasswordHash::new` accepts. -/
structure AuthLib where
  parseUrl : List Char → Option AuthUrl
  splitParse : List Char → List (Option (List Char × List Char))
  sha256Hex : Bytes → List Char
  passwordHash : List Char → Option (Bytes → Bool)

/-! ### Tokens -/

/-- A session id or an OAuth state, as it stands in a cookie. -/
abbrev Token := List Char

/-- `AUTH_TOKEN_BYTES` -/
def authTokenBytes : ℕ := 32

/-- `AUTH_TOKEN_ENCODED_LEN` -/
def authTokenEncodedLen : ℕ := 43

/-- The array that the generator of random numbers fills. -/
abbrev TokenBytes := {bytes : Bytes // bytes.length = authTokenBytes}

/-- `random_token`, of the bytes that were drawn. -/
def randomToken (bytes : TokenBytes) : Token := Base64.encodeUrlSafe bytes.1

/-- No byte of a character beyond ASCII is alphanumeric. -/
def validAuthToken (value : List Char) : Bool :=
  Schemes.utf8Len value == authTokenEncodedLen &&
    value.all fun c => c.isAlphanum || c == '-' || c == '_'

theorem randomToken_injective : Function.Injective randomToken :=
  fun _ _ h => Subtype.ext (Base64.encodeUrlSafe_injective h)

theorem randomToken_valid (bytes : TokenBytes) : validAuthToken (randomToken bytes) = true := by
  have hsigns : ∀ c ∈ randomToken bytes, c.isAlphanum = true ∨ c = '-' ∨ c = '_' :=
    fun c hc => Base64.mem_encodeUrlSafe hc
  have hascii : ∀ c ∈ randomToken bytes, c.toNat < 128 := by
    intro c hc
    rcases hsigns c hc with h | rfl | rfl
    · simp only [Char.isAlphanum, Char.isAlpha, Char.isUpper, Char.isLower, Char.isDigit,
        Bool.or_eq_true, Bool.and_eq_true, decide_eq_true_eq, UInt32.le_iff_toNat_le] at h
      change ((65 ≤ c.toNat ∧ c.toNat ≤ 90) ∨ (97 ≤ c.toNat ∧ c.toNat ≤ 122)) ∨
        (48 ≤ c.toNat ∧ c.toNat ≤ 57) at h
      omega
    · decide
    · decide
  have hlen : Schemes.utf8Len (randomToken bytes) = authTokenEncodedLen := by
    rw [Schemes.utf8Len_ascii hascii, randomToken, Base64.encodeUrlSafe_length, bytes.2]
    rfl
  simp only [validAuthToken, hlen, beq_self_eq_true, Bool.true_and, List.all_eq_true, Bool.or_eq_true,
    beq_iff_eq, or_assoc]
  exact hsigns

/-! ### Cookies -/

/-- `SESSION_COOKIE` -/
def sessionCookieName : List Char := "llmtrace_session".toList

/-- `OAUTH_STATE_COOKIE` -/
def oauthStateCookieName : List Char := "llmtrace_oauth_state".toList

section
variable (lib : AuthLib)

/-- The pairs of all `Cookie` headers that are text, those that do not parse left out. -/
def cookiePairs (headers : Proxy.HeaderMap) : List (List Char × List Char) :=
  ((headers.filter fun h => h.1 = "cookie".toList).filterMap fun h => Proxy.toStr h.2).flatMap
    fun cookie => (lib.splitParse cookie).filterMap id

/-- `auth_cookie`: the first pair of the name whose value looks like a token. -/
def authCookie (headers : Proxy.HeaderMap) (cookieName : List Char) : Option Token :=
  ((cookiePairs lib headers).find? fun p => p.1 = cookieName ∧ validAuthToken p.2 = true).map Prod.snd

/-- `session_cookie` -/
def sessionCookie (headers : Proxy.HeaderMap) : Option Token := authCookie lib headers sessionCookieName

/-- `oauth_state_cookie` -/
def oauthStateCookie (headers : Proxy.HeaderMap) : Option Token :=
  authCookie lib headers oauthStateCookieName

/-! ### Origins -/

/-- `http::Method` -/
inductive Method where
  | get | head | options | trace | post | put | delete | connect | patch
  | extension (name : List Char)
  deriving DecidableEq

/-- `safe_method` -/
def safeMethod : Method → Bool
  | .get | .head | .options | .trace => true
  | _ => false

/-- `header_to_str` -/
def headerToStr (headers : Proxy.HeaderMap) (name : List Char) : Option (List Char) :=
  (headers.first name).bind Proxy.toStr

/-- `origin_matches_public_url`: scheme, host and port are compared. -/
def originMatchesPublicUrl (publicUrl candidate : List Char) : Bool :=
  match lib.parseUrl publicUrl, lib.parseUrl candidate with
  | some publicUrl, some candidate =>
    publicUrl.scheme == candidate.scheme &&
      (match publicUrl.host, candidate.host with
        | some publicHost, some candidateHost =>
          toAsciiLowercase publicHost == toAsciiLowercase candidateHost
        | _, _ => false) &&
      publicUrl.portOrKnownDefault == candidate.portOrKnownDefault
  | _, _ => false

/-- An `Origin` that is no text counts as none. -/
def sameOriginRequestAllowed (publicUrl : List Char) (method : Method) (headers : Proxy.HeaderMap) :
    Bool :=
  safeMethod method ||
    match headerToStr headers "origin".toList with
    | some origin => originMatchesPublicUrl lib publicUrl origin
    | none =>
      match headerToStr headers "referer".toList with
      | some referer => originMatchesPublicUrl lib publicUrl referer
      | none => true

end

section
variable {lib : AuthLib} {headers : Proxy.HeaderMap} {name : List Char} {token : Token}

theorem mem_cookiePairs {pair : List Char × List Char} : pair ∈ cookiePairs lib headers ↔
    ∃ value, ("cookie".toList, value) ∈ headers ∧
      ∃ text, Proxy.toStr value = some text ∧ some pair ∈ lib.splitParse text := by
  simp only [cookiePairs, List.mem_flatMap, List.mem_filterMap, List.mem_filter, decide_eq_true_eq, id_eq]
  constructor
  · rintro ⟨text, ⟨⟨_, value⟩, ⟨hmem, rfl⟩, htext⟩, _, hparsed, rfl⟩
    exact ⟨value, hmem, text, htext, hparsed⟩
  · rintro ⟨value, hmem, text, htext, hparsed⟩
    exact ⟨text, ⟨_, ⟨hmem, rfl⟩, htext⟩, _, hparsed, rfl⟩

/-- ROUND TRIP: every token that can be drawn is read back from a `Cookie` header that is visible ASCII
    throughout, as long as no other token stands under the same name in such a header; and different
    draws give different tokens. A header with any other byte is skipped as a whole. -/
theorem drawn_token_read_back (lib : AuthLib) (bytes : TokenBytes) (headers : Proxy.HeaderMap)
    (name : List Char) {value : Bytes} (hsent : ("cookie".toList, value) ∈ headers)
    (htext : value.all Proxy.visible = true)
    (hparsed : some (name, randomToken bytes) ∈ lib.splitParse (Proxy.latin1 value))
    (honly : ∀ other text token, ("cookie".toList, other) ∈ headers → Proxy.toStr other = some text →
      some (name, token) ∈ lib.splitParse text → validAuthToken token = true →
      token = randomToken bytes) :
    authCookie lib headers name = some (randomToken bytes) ∧
    ∀ bytes', authCookie lib headers name = some (randomToken bytes') → bytes' = bytes := by
  have hpair : (name, randomToken bytes) ∈ cookiePairs lib headers :=
    mem_cookiePairs.mpr ⟨value, hsent, _, if_pos htext, hparsed⟩
  have hread : authCookie lib headers name = some (randomToken bytes) := by
    obtain ⟨p, hp⟩ := Option.isSome_iff_exists.mp (List.find?_isSome (p := fun p : List Char × List Char =>
      decide (p.1 = name ∧ validAuthToken p.2 = true)).mpr
      ⟨_, hpair, by simpa using randomToken_valid bytes⟩)
    have hvalid := List.find?_some hp
    simp only [decide_eq_true_eq] at hvalid
    have hfound : (name, p.2) ∈ cookiePairs lib headers := by
      rw [← hvalid.1]
      exact List.mem_of_find?_eq_some hp
    obtain ⟨other, hother, text, htext, hmem⟩ := mem_cookiePairs.mp hfound
    rw [authCookie, hp, Option.map_some, honly other text p.2 hother htext hmem hvalid.2]
  refine ⟨hread, fun bytes' h => ?_⟩
  rw [hread, Option.some.injEq] at h
  exact (randomToken_injective h).symm

end

/-- A library for a few URLs; its digests are the texts themselves. -/
def sampleAuthLib : AuthLib where
  parseUrl text := (splitOnceText "https://".toList text).map fun cut =>
    ⟨"https".toList, some (cut.2.takeWhile (· != '/')), [], none, some 443⟩
  splitParse cookie := (cookie.splitOn ';').map fun part => splitOnce '=' (trim part)
  sha256Hex bytes := bytes.map fun b => Char.ofNat b.toNat
  passwordHash _ := none

/-- A draw for the samples. -/
def zeroBytes : TokenBytes := ⟨List.replicate 32 0, by decide⟩

/-- A session cookie beside another cookie. -/
def zeroCookieText : List Char := "theme=dark; llmtrace_session=".toList ++ randomToken zeroBytes

/-- The header with both cookies. -/
def zeroCookie : Proxy.HeaderMap := [("cookie".toList, utf8 zeroCookieText)]

theorem drawn_token_read_back_beside_another :
    authCookie sampleAuthLib zeroCookie sessionCookieName = some (randomToken zeroBytes) := by
  have htext : (utf8 zeroCookieText).all Proxy.visible = true ∧
      Proxy.latin1 (utf8 zeroCookieText) = zeroCookieText := by decide +kernel
  have hparse : sampleAuthLib.splitParse zeroCookieText =
      [some ("theme".toList, "dark".toList), some (sessionCookieName, randomToken zeroBytes)] := by
    decide +kernel
  refine (drawn_token_read_back sampleAuthLib zeroBytes zeroCookie sessionCookieName (.head _) htext.1
    (by rw [htext.2, hparse]; exact .tail _ (.head _)) ?_).1
  intro other text token hmem hother htoken _
  simp only [zeroCookie, List.mem_singleton, Prod.mk.injEq, true_and] at hmem
  subst hmem
  rw [Proxy.toStr, if_pos htext.1, htext.2, Option.some.injEq] at hother
  rw [← hother, hparse] at htoken
  simp only [List.mem_cons, Option.some.injEq, Prod.mk.injEq, List.not_mem_nil, or_false] at htoken
  rcases htoken with ⟨hname, -⟩ | ⟨-, htoken⟩
  · exact absurd hname (by decide)
  · exact htoken

end Llmtrace.Auth
