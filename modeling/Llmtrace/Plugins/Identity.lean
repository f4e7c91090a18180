import Llmtrace.Schemes.Json
import Llmtrace.Schemes.Text

/-! The plugin that attributes traces to LiteLLM users (`litellm-user-plugin`). It hashes the caller's
    key, asks the gateway for the key and then for its user, and keeps complete answers in the host's
    cache under the hash of the key.

    Texts that `serde_json` writes or reads stand as the documents they are: a response body is what
    it parses to, if it parses, and the cache holds documents. -/

namespace Llmtrace.Plugins
open Schemes

/-! ### Reading the hook input -/

/-- `MAX_FIELD_BYTES` -/
def maxFieldBytes : ℕ := 256

/-- `MAX_TEAMS` -/
def maxTeams : ℕ := 16

/-- Caps a field on a character boundary. -/
def bounded (value : String) : String := String.ofList (truncateUtf8 value.toList maxFieldBytes)

/-- The headers that may hold a key, the first that does counts. -/
def credentialNames : List String := ["authorization", "x-api-key", "api-key"]

/-- `find_credential` -/
def findCredential (headers : List (String × Json)) : Option (String × String) :=
  credentialNames.findSome? fun name =>
    (((fetch name headers).bind Json.asStr).filter fun value =>
      !(trim value.toList).isEmpty && value != "<non-utf8>").map fun value => (name, value)

/-- The key without its auth scheme. -/
def bareKey (header : String) (value : List Char) : List Char :=
  match splitOnce ' ' value with
  | some (scheme, rest) =>
    if header = "authorization" ∧ ¬scheme.isEmpty ∧ scheme.all Char.isAlphanum then trim rest
    else trim value
  | none => trim value

/-- `scheme://authority` of the forwarded URL. -/
def originOf (upstreamUrl : String) : Option String :=
  match splitOnceText "://".toList upstreamUrl.toList with
  | none => none
  | some (scheme, rest) =>
    if scheme = "http".toList ∨ scheme = "https".toList then
      let authority := rest.takeWhile fun c => !(c == '/' || c == '?' || c == '#')
      if authority.isEmpty then none
      else some (String.ofList (scheme ++ ("://".toList ++ authority)))
    else none

/-- The credential of a hook input. -/
def credentialOf (input : Json) : Option (String × String) :=
  ((input.get "headers").bind Json.asObject).bind findCredential

/-- The origin of a hook input's upstream. -/
def upstreamOrigin (input : Json) : Option String :=
  originOf (((input.get "upstream_url").bind Json.asStr).getD "")

/-- The digit of a percent escape. -/
def hexDigit (n : ℕ) : Char := "0123456789ABCDEF".toList.getD n '0'

/-- Bytes outside the unreserved set are escaped. -/
def percentEncodeByte (b : UInt8) : List Char :=
  let c := Char.ofNat b.toNat
  if c.isAlphanum ∨ c = '-' ∨ c = '_' ∨ c = '.' ∨ c = '~' then [c]
  else ['%', hexDigit (b.toNat / 16), hexDigit (b.toNat % 16)]

/-- `percent_encode` -/
def percentEncode (value : String) : String :=
  String.ofList ((utf8 value.toList).flatMap percentEncodeByte)

/-! ### Asking the gateway -/

/-- A response; `body` is what it parses to. -/
structure LookupResponse where
  status : ℕ
  body : Option Json

/-- What LiteLLM answers to a URL, with nothing where the lookup fails. -/
abbrev Gateway := String → Option LookupResponse

/-- The URL of the key lookup. -/
def keyUrl (origin keyHash : String) : String := origin ++ ("/key/info?key=" ++ keyHash)

/-- The URL of the user lookup. -/
def userUrl (origin userId : String) : String := origin ++ ("/user/info?user_id=" ++ percentEncode userId)

/-- The document, and the warnings if there is none. -/
def lookupJson (gateway : Gateway) (url what : String) : Option Json × List String :=
  match gateway url with
  | none => (none, [what ++ " failed"])
  | some response =>
    if response.status ≠ 200 then
      (none, [what ++ " returned status " ++ toString response.status])
    else
      match response.body with
      | some document => (some document, [])
      | none => (none, [what ++ " returned an unparseable body"])

/-! ### Resolving a key -/

/-- What goes into the output. -/
structure HookFields where
  userId : Option String := none
  userName : Option String := none
  customFields : List (String × Json) := []
  tags : List String := []
  warnings : List String := []

/-- A list of texts as JSON. -/
def strings (texts : List String) : Json := .arr (texts.map .str)

/-- `hook_output` -/
def hookOutput (fields : HookFields) : Json :=
  .obj [("custom_fields", .obj fields.customFields), ("tags", strings fields.tags),
    ("user_id", Json.ofOption fields.userId), ("user_name", Json.ofOption fields.userName),
    ("warnings", strings fields.warnings)]

/-- `CACHE_DOC_VERSION` -/
def cacheDocVersion : ℤ := 1

/-- The document that a complete resolution is cached as. -/
def cacheDocument (fields : HookFields) : Json :=
  .obj [("custom_fields", .obj fields.customFields), ("tags", strings fields.tags),
    ("user_id", Json.ofOption fields.userId), ("user_name", Json.ofOption fields.userName),
    ("v", .int cacheDocVersion)]

/-- `copy_string_field` -/
def copyStringField (source : List (String × Json)) (field : String) (target : List (String × Json)) :
    List (String × Json) :=
  match (fetch field source).bind Json.asStr with
  | some value => if value.isEmpty then target else put field (.str (bounded value)) target
  | none => target

/-- The fields that every answer about a key has. -/
def keyFields (keyHash : String) : List (String × Json) :=
  put "identity_source" (.str "litellm") (put "litellm_key_hash" (.str keyHash) [])

/-- `bounded` in `identity`: the user is cut before it is looked up. -/
def userOf (info : List (String × Json)) : Option String :=
  (((fetch "user_id" info).bind Json.asStr).filter fun value => !value.isEmpty).map bounded

/-- A field that is left out where there is no value. -/
def putOption (field : String) (value : Option String) (target : List (String × Json)) :
    List (String × Json) :=
  match value with
  | some text => put field (.str text) target
  | none => target

/-- What a user record adds. -/
def addUserInfo (info : List (String × Json)) (fields : HookFields) : HookFields :=
  let email := ((fetch "user_email" info).bind Json.asStr).map bounded
  let userAlias := ((fetch "user_alias" info).bind Json.asStr).map bounded
  let custom := putOption "user_alias" userAlias (putOption "user_email" email fields.customFields)
  let custom := copyStringField info "user_role" custom
  let teams := (((fetch "teams" info).bind Json.asArray).getD []).filterMap Json.asStr
  let teams := (teams.map bounded).take maxTeams
  let custom := if teams.isEmpty then custom else put "teams" (strings teams) custom
  { fields with userName := email.or userAlias, customFields := custom }

/-- A resolution: the output, whether it is complete, and the URLs that were asked. -/
structure Resolution where
  fields : HookFields
  complete : Bool
  lookups : List String

/-- The part of the resolution behind the key lookup. -/
def resolveUser (gateway : Gateway) (origin : String) (fields : HookFields) : Resolution :=
  match fields.userId with
  | none => ⟨{ fields with tags := fields.tags ++ ["litellm_key_without_user"] }, true, []⟩
  | some userId =>
    let url := userUrl origin userId
    let (document, warnings) := lookupJson gateway url "litellm user lookup"
    let fields := { fields with warnings := fields.warnings ++ warnings }
    match (document.bind fun answer => answer.get "user_info").bind Json.asObject with
    | some info => ⟨addUserInfo info fields, true, [url]⟩
    | none => ⟨fields, false, [url]⟩

/-- The two lookups of `identity`, and what they give. -/
def resolve (gateway : Gateway) (keyHash origin : String) : Resolution :=
  let url := keyUrl origin keyHash
  let (document, warnings) := lookupJson gateway url "litellm key lookup"
  match document with
  | none =>
    ⟨{ customFields := keyFields keyHash, tags := ["litellm_identity_lookup_failed"], warnings },
      false, [url]⟩
  | some document =>
    let fields : HookFields :=
      match (document.get "info").bind Json.asObject with
      | some info =>
        { userId := userOf info
          customFields := copyStringField info "org_id" (copyStringField info "team_id"
            (copyStringField info "key_alias" (keyFields keyHash)))
          warnings }
      | none => { customFields := keyFields keyHash, warnings }
    let user := resolveUser gateway origin fields
    ⟨user.fields, user.complete, url :: user.lookups⟩

/-! ### `identity` -/

/-- The host's store, as the plugin sees it: the documents under their keys. -/
abbrev IdentityCache := String → Option Json

/-- `cached_identity`: a document of another version is none. -/
def cachedIdentity (cache : IdentityCache) (key : String) : Option Json :=
  (cache key).filter fun document =>
    ((document.get "v").bind Json.asI64) == some cacheDocVersion &&
      ((document.get "custom_fields").bind Json.asObject).isSome

/-- The fields of one object set in another. -/
def putAll : List (String × Json) → List (String × Json) → List (String × Json)
  | [], target => target
  | (name, value) :: fields, target => putAll fields (put name value target)

/-- `emit_cached` -/
def emitCached (document : Json) (customFields : List (String × Json)) : Json :=
  hookOutput
    { userId := ((document.get "user_id").bind Json.asStr).filter fun value => !value.isEmpty
      userName := (document.get "user_name").bind Json.asStr
      customFields := putAll (((document.get "custom_fields").bind Json.asObject).getD []) customFields
      tags := (((document.get "tags").bind Json.asArray).getD []).filterMap Json.asStr }

/-- What a hook puts out, what it caches, and which URLs it asked. -/
structure HookResult where
  output : Json
  stored : Option (String × Json)
  lookups : List String

section
variable (sha256Hex : Bytes → String)

/-- The hash of the caller's key. -/
def keyHashOf (input : Json) : Option String :=
  (credentialOf input).map fun (header, value) => sha256Hex (utf8 (bareKey header value.toList))

/-- `identity` -/
def identity (gateway : Gateway) (cache : IdentityCache) (input : Json) : HookResult :=
  match keyHashOf sha256Hex input with
  | none => ⟨hookOutput { tags := ["litellm_no_credential"] }, none, []⟩
  | some keyHash =>
    match cachedIdentity cache keyHash with
    | some document => ⟨emitCached document (keyFields keyHash), none, []⟩
    | none =>
      match upstreamOrigin input with
      | none =>
        ⟨hookOutput
          { customFields := keyFields keyHash
            warnings := ["litellm plugin could not derive an origin from upstream_url"] }, none, []⟩
      | some origin =>
        let resolution := resolve gateway keyHash origin
        ⟨hookOutput resolution.fields,
          if resolution.complete then some (keyHash, cacheDocument resolution.fields) else none,
          resolution.lookups⟩

/-- A cache that returns what was last put. -/
def IdentityCache.after (cache : IdentityCache) (stored : Option (String × Json)) : IdentityCache :=
  match stored with
  | none => cache
  | some (key, document) => Function.update cache key (some document)

/-- A cache that holds nothing. -/
def noCache : IdentityCache := fun _ => none

/-- The hook on one input after the other, with one cache: the outputs. -/
def hookOutputs (gateway : Gateway) : IdentityCache → List Json → List Json
  | _, [] => []
  | cache, input :: inputs =>
    let result := identity sha256Hex gateway cache input
    result.output :: hookOutputs gateway (cache.after result.stored) inputs

/-- The cache after these inputs. -/
def cacheAfter (gateway : Gateway) : IdentityCache → List Json → IdentityCache
  | cache, [] => cache
  | cache, input :: inputs =>
    cacheAfter gateway (cache.after (identity sha256Hex gateway cache input).stored) inputs

/-- The output without a cache. -/
def freshOutput (gateway : Gateway) (input : Json) : Json :=
  (identity sha256Hex gateway noCache input).output

/-- An earlier input and a later one with the same key go to the same origin, or the earlier one to
    none. -/
def SameOrigin (earlier later : Json) : Prop :=
  ∀ keyHash, keyHashOf sha256Hex earlier = some keyHash → keyHashOf sha256Hex later = some keyHash →
    upstreamOrigin earlier = none ∨ upstreamOrigin earlier = upstreamOrigin later

end

/-! ### Lookups -/

/-- The document of a response with status 200. -/
def okBody (gateway : Gateway) (url : String) : Option Json :=
  (gateway url).bind fun response => if response.status = 200 then response.body else none

theorem lookupJson_fst (gateway : Gateway) (url what : String) :
    (lookupJson gateway url what).1 = okBody gateway url := by
  rw [lookupJson, okBody]
  cases gateway url with
  | none => rfl
  | some response =>
    by_cases hstatus : response.status = 200
    · cases hbody : response.body <;> simp [hstatus, hbody]
    · simp [hstatus]

/-- There are warnings exactly when there is no document. -/
theorem lookupJson_snd (gateway : Gateway) (url what : String) :
    (lookupJson gateway url what).2 = [] ↔ (okBody gateway url).isSome = true := by
  rw [lookupJson, okBody]
  cases gateway url with
  | none => simp
  | some response =>
    by_cases hstatus : response.status = 200
    · cases hbody : response.body <;> simp [hstatus, hbody]
    · simp [hstatus]

/-! ### Fields -/

theorem bounded_ne_empty {value : String} (h : value ≠ "") : bounded value ≠ "" := by
  intro hempty
  have hnil : truncateUtf8 value.toList maxFieldBytes = [] := by
    rw [bounded] at hempty
    simpa using congrArg String.toList hempty
  cases hv : value.toList with
  | nil => exact h (String.toList_injective (by rw [hv]; rfl))
  | cons c cs =>
    have := c.utf8Size_le_four
    rw [hv, truncateUtf8, if_pos (by rw [maxFieldBytes]; omega)] at hnil
    cases hnil

/-- Custom fields that were built on those of the key. -/
structure Extends (keyHash : String) (custom : List (String × Json)) : Prop where
  ascending : Ascending custom
  keys : ∀ k v, fetch k (keyFields keyHash) = some v → (fetch k custom).isSome = true

theorem keyFields_ascending (keyHash : String) : Ascending (keyFields keyHash) :=
  Ascending.put (Ascending.put List.Pairwise.nil)

theorem extends_keyFields (keyHash : String) : Extends keyHash (keyFields keyHash) :=
  ⟨keyFields_ascending keyHash, fun k v h => by rw [h]; rfl⟩

theorem Extends.put {keyHash : String} {custom : List (String × Json)} (h : Extends keyHash custom)
    (field : String) (value : Json) : Extends keyHash (put field value custom) := by
  refine ⟨h.ascending.put, fun k v hk => ?_⟩
  rw [fetch_put]
  split
  · rfl
  · exact h.keys k v hk

theorem Extends.copy {keyHash : String} {custom : List (String × Json)} (h : Extends keyHash custom)
    (source : List (String × Json)) (field : String) :
    Extends keyHash (copyStringField source field custom) := by
  unfold copyStringField
  split
  · split
    · exact h
    · exact h.put _ _
  · exact h

theorem Extends.putOption {keyHash : String} {custom : List (String × Json)}
    (h : Extends keyHash custom) (field : String) (value : Option String) :
    Extends keyHash (putOption field value custom) := by
  cases value with
  | none => exact h
  | some text => exact h.put _ _

theorem Extends.addUserInfo {keyHash : String} {fields : HookFields}
    (h : Extends keyHash fields.customFields) (info : List (String × Json)) :
    Extends keyHash (addUserInfo info fields).customFields := by
  have hrole := ((h.putOption "user_email" (((fetch "user_email" info).bind Json.asStr).map bounded)
    ).putOption "user_alias" (((fetch "user_alias" info).bind Json.asStr).map bounded)).copy info
    "user_role"
  simp only [Plugins.addUserInfo]
  split
  · exact hrole
  · exact hrole.put _ _

/-- A complete resolution: nothing to warn of, and what the cache needs to repeat it. -/
structure Settled (keyHash : String) (fields : HookFields) : Prop where
  custom : Extends keyHash fields.customFields
  user : ∀ userId, fields.userId = some userId → userId ≠ ""
  warnings : fields.warnings = []

theorem resolveUser_settled {gateway : Gateway} {keyHash origin : String} {fields : HookFields}
    (h : Settled keyHash fields) (hcomplete : (resolveUser gateway origin fields).complete = true) :
    Settled keyHash (resolveUser gateway origin fields).fields := by
  unfold resolveUser at hcomplete ⊢
  cases huser : fields.userId with
  | none =>
    simp only [huser] at hcomplete ⊢
    exact ⟨h.custom, by simp, h.warnings⟩
  | some userId =>
    simp only [huser, lookupJson_fst] at hcomplete ⊢
    split
    · rename_i info hinfo
      have hsome : (okBody gateway (userUrl origin userId)).isSome = true := by
        cases hbody : okBody gateway (userUrl origin userId) with
        | none => rw [hbody] at hinfo; cases hinfo
        | some document => rfl
      refine ⟨h.custom.addUserInfo info, ?_, ?_⟩
      · intro u hu
        exact h.user u (huser.trans hu)
      · simp only [addUserInfo, h.warnings, List.nil_append]
        exact (lookupJson_snd _ _ _).mpr hsome
    · rename_i hnone
      rw [hnone] at hcomplete
      cases hcomplete

theorem userOf_ne_empty {info : List (String × Json)} {userId : String}
    (h : userOf info = some userId) : userId ≠ "" := by
  rw [userOf, Option.map_eq_some_iff] at h
  obtain ⟨value, hvalue, rfl⟩ := h
  rw [Option.filter_eq_some_iff] at hvalue
  refine bounded_ne_empty fun hempty => ?_
  rw [hempty] at hvalue
  exact absurd hvalue.2 (by decide)

theorem resolve_settled {gateway : Gateway} {keyHash origin : String}
    (h : (resolve gateway keyHash origin).complete = true) :
    Settled keyHash (resolve gateway keyHash origin).fields := by
  have hwarn := lookupJson_snd gateway (keyUrl origin keyHash) "litellm key lookup"
  unfold resolve at h ⊢
  simp only [lookupJson_fst] at h ⊢
  cases hdoc : okBody gateway (keyUrl origin keyHash) with
  | none =>
    rw [hdoc] at h
    cases h
  | some document =>
    rw [hdoc] at h hwarn
    have hempty := hwarn.mpr rfl
    refine resolveUser_settled ?_ h
    split
    · rename_i info hinfo
      exact ⟨(((extends_keyFields keyHash).copy _ _).copy _ _).copy _ _,
        fun userId hu => userOf_ne_empty hu, hempty⟩
    · exact ⟨extends_keyFields keyHash, by simp, hempty⟩

/-! ### A hit repeats the resolution -/

theorem fetch_putAll (k : String) : ∀ {fields : List (String × Json)} (target : List (String × Json)),
    Ascending fields → fetch k (putAll fields target) = (fetch k fields).or (fetch k target)
  | [], _, _ => rfl
  | (name, value) :: fields, target, h => by
      obtain ⟨hlt, htail⟩ := List.pairwise_cons.mp h
      rw [putAll, fetch_putAll k _ htail, fetch_put, fetch]
      by_cases hk : k = name
      · subst hk
        rw [fetch_of_lt hlt, if_pos rfl, if_pos rfl]
        rfl
      · rw [if_neg hk, if_neg hk]

theorem putAll_ascending : ∀ (fields : List (String × Json)) {target : List (String × Json)},
    Ascending target → Ascending (putAll fields target)
  | [], _, h => h
  | _ :: fields, _, h => putAll_ascending fields h.put

theorem putAll_extends {keyHash : String} {custom : List (String × Json)}
    (h : Extends keyHash custom) : putAll custom (keyFields keyHash) = custom := by
  refine (putAll_ascending _ (keyFields_ascending keyHash)).ext h.ascending fun k => ?_
  rw [fetch_putAll k _ h.ascending]
  cases hk : fetch k custom with
  | some v => rfl
  | none =>
    cases hkey : fetch k (keyFields keyHash) with
    | none => rfl
    | some v =>
      have := h.keys k v hkey
      rw [hk] at this
      cases this

theorem asStr_ofOption (text : Option String) : (Json.ofOption text).asStr = text := by
  cases text <;> rfl

theorem filterMap_asStr (texts : List String) : (texts.map Json.str).filterMap Json.asStr = texts := by
  rw [List.filterMap_map]
  exact List.filterMap_some

theorem emitCached_settled {keyHash : String} {fields : HookFields} (h : Settled keyHash fields) :
    emitCached (cacheDocument fields) (keyFields keyHash) = hookOutput fields := by
  have huser : fields.userId.filter (fun value => !value.isEmpty) = fields.userId := by
    cases hid : fields.userId with
    | none => rfl
    | some userId =>
      rw [Option.filter_eq_some_iff]
      exact ⟨rfl, by simpa [String.isEmpty_iff] using h.user userId hid⟩
  have hcustom : (cacheDocument fields).get "custom_fields" = some (.obj fields.customFields) := rfl
  have htags : (cacheDocument fields).get "tags" = some (strings fields.tags) := rfl
  have hid : (cacheDocument fields).get "user_id" = some (Json.ofOption fields.userId) := rfl
  have hname : (cacheDocument fields).get "user_name" = some (Json.ofOption fields.userName) := rfl
  simp only [emitCached, hookOutput, hcustom, htags, hid, hname, Option.bind_some, Json.asObject,
    Option.getD_some, putAll_extends h.custom, asStr_ofOption, huser, strings, Json.asArray,
    filterMap_asStr, h.warnings]

theorem cachedIdentity_document {cache : IdentityCache} {key : String} {fields : HookFields}
    (h : cache key = some (cacheDocument fields)) :
    cachedIdentity cache key = some (cacheDocument fields) := by
  rw [cachedIdentity, h, Option.filter_eq_some_iff]
  exact ⟨rfl, rfl⟩

/-! ### Caching is transparent for one origin -/

section
variable {sha256Hex : Bytes → String} {gateway : Gateway}

theorem hookOutputs_concat (input : Json) : ∀ (inputs : List Json) (cache : IdentityCache),
    hookOutputs sha256Hex gateway cache (inputs ++ [input]) =
      hookOutputs sha256Hex gateway cache inputs ++
        [(identity sha256Hex gateway (cacheAfter sha256Hex gateway cache inputs) input).output]
  | [], _ => rfl
  | i :: inputs, cache => by
      rw [List.cons_append, hookOutputs, hookOutputs, hookOutputs_concat input inputs]
      rfl

theorem cacheAfter_concat (input : Json) : ∀ (inputs : List Json) (cache : IdentityCache),
    cacheAfter sha256Hex gateway cache (inputs ++ [input]) =
      (cacheAfter sha256Hex gateway cache inputs).after
        (identity sha256Hex gateway (cacheAfter sha256Hex gateway cache inputs) input).stored
  | [], _ => rfl
  | _ :: inputs, _ => cacheAfter_concat input inputs _

/-- What `identity` stores is a complete resolution of its input. -/
theorem stored_cases {cache : IdentityCache} {input : Json} {key : String} {document : Json}
    (h : (identity sha256Hex gateway cache input).stored = some (key, document)) :
    keyHashOf sha256Hex input = some key ∧ cachedIdentity cache key = none ∧
      ∃ origin, upstreamOrigin input = some origin ∧ (resolve gateway key origin).complete = true ∧
        document = cacheDocument (resolve gateway key origin).fields := by
  unfold identity at h
  split at h
  · cases h
  rename_i keyHash hkey
  split at h
  · cases h
  rename_i hmiss
  split at h
  · cases h
  rename_i origin horigin
  simp only [Option.ite_none_right_eq_some, Option.some.injEq, Prod.mk.injEq] at h
  obtain ⟨hcomplete, rfl, rfl⟩ := h
  exact ⟨hkey, hmiss, origin, horigin, hcomplete, rfl⟩

/-- The cache holds complete resolutions of the inputs so far. -/
theorem cacheAfter_sound (inputs : List Json) {key : String} {document : Json}
    (h : cacheAfter sha256Hex gateway noCache inputs key = some document) :
    ∃ input ∈ inputs, ∃ origin, keyHashOf sha256Hex input = some key ∧
      upstreamOrigin input = some origin ∧ (resolve gateway key origin).complete = true ∧
      document = cacheDocument (resolve gateway key origin).fields := by
  induction inputs using List.reverseRecOn with
  | nil => cases h
  | append_singleton inputs last ih =>
    rw [cacheAfter_concat] at h
    have hold : cacheAfter sha256Hex gateway noCache inputs key = some document →
        ∃ input ∈ inputs ++ [last], ∃ origin, keyHashOf sha256Hex input = some key ∧
          upstreamOrigin input = some origin ∧ (resolve gateway key origin).complete = true ∧
          document = cacheDocument (resolve gateway key origin).fields := fun hcache => by
      obtain ⟨input, hin, hrest⟩ := ih hcache
      exact ⟨input, List.mem_append_left _ hin, hrest⟩
    cases hstored : (identity sha256Hex gateway
        (cacheAfter sha256Hex gateway noCache inputs) last).stored with
    | none =>
      rw [hstored] at h
      exact hold h
    | some stored =>
      obtain ⟨key', document'⟩ := stored
      rw [hstored] at h
      by_cases hkey : key = key'
      · subst hkey
        rw [IdentityCache.after, Function.update_self] at h
        cases h
        obtain ⟨hhash, -, origin, horigin⟩ := stored_cases hstored
        exact ⟨last, List.mem_append_right _ (List.mem_singleton.mpr rfl), origin, hhash, horigin⟩
      · rw [IdentityCache.after, Function.update_of_ne hkey] at h
        exact hold h

/-- What `identity` answers on a hit of a complete resolution. -/
theorem identity_hit {cache : IdentityCache} {input : Json} {key origin : String}
    (hkey : keyHashOf sha256Hex input = some key)
    (hcomplete : (resolve gateway key origin).complete = true)
    (hcache : cache key = some (cacheDocument (resolve gateway key origin).fields)) :
    identity sha256Hex gateway cache input =
      ⟨hookOutput (resolve gateway key origin).fields, none, []⟩ := by
  simp only [identity, hkey, cachedIdentity_document hcache,
    emitCached_settled (resolve_settled hcomplete)]

theorem identity_miss {cache : IdentityCache} {input : Json} {key : String}
    (hkey : keyHashOf sha256Hex input = some key) (hmiss : cachedIdentity cache key = none) :
    identity sha256Hex gateway cache input = identity sha256Hex gateway noCache input := by
  have hnone : cachedIdentity noCache key = none := rfl
  simp only [identity, hkey, hmiss, hnone]

theorem fresh_resolve {input : Json} {key origin : String}
    (hkey : keyHashOf sha256Hex input = some key) (horigin : upstreamOrigin input = some origin) :
    freshOutput sha256Hex gateway input = hookOutput (resolve gateway key origin).fields := by
  have hnone : cachedIdentity noCache key = none := rfl
  simp only [freshOutput, identity, hkey, hnone, horigin]

/-- With one origin for each key, the cache is not seen in the output. -/
theorem output_fresh {inputs : List Json} {input : Json}
    (h : ∀ earlier ∈ inputs, SameOrigin sha256Hex earlier input) :
    (identity sha256Hex gateway (cacheAfter sha256Hex gateway noCache inputs) input).output =
      freshOutput sha256Hex gateway input := by
  cases hkey : keyHashOf sha256Hex input with
  | none => simp only [freshOutput, identity, hkey]
  | some key =>
    cases hcache : cacheAfter sha256Hex gateway noCache inputs key with
    | none =>
      have hmiss : cachedIdentity (cacheAfter sha256Hex gateway noCache inputs) key = none := by
        rw [cachedIdentity, hcache]
        rfl
      rw [identity_miss hkey hmiss, freshOutput]
    | some document =>
      obtain ⟨earlier, hin, origin, hhash, horigin, hcomplete, rfl⟩ := cacheAfter_sound inputs hcache
      have hsame : upstreamOrigin input = some origin := by
        rcases h earlier hin key hhash hkey with hnone | heq
        · rw [horigin] at hnone; cases hnone
        · rw [← heq, horigin]
      rw [identity_hit hkey hcomplete hcache, fresh_resolve hkey hsame]

/-! ### One key at two origins -/

/-- A gateway that knows one key at one origin, without a user. -/
def onlyKey (origin keyHash : String) : Gateway := fun url =>
  if url = keyUrl origin keyHash then some ⟨200, some (.obj [("info", .obj [])])⟩ else none

theorem resolve_onlyKey (origin keyHash : String) :
    resolve (onlyKey origin keyHash) keyHash origin =
      ⟨{ customFields := keyFields keyHash, tags := ["litellm_key_without_user"] }, true,
        [keyUrl origin keyHash]⟩ := by
  simp [resolve, lookupJson, onlyKey, resolveUser, userOf, fetch, Json.get, Json.asObject,
    copyStringField]

theorem resolve_onlyKey_ne {origin origin' keyHash : String} (h : origin' ≠ origin) :
    (resolve (onlyKey origin keyHash) keyHash origin').complete = false ∧
      (resolve (onlyKey origin keyHash) keyHash origin').fields.tags =
        ["litellm_identity_lookup_failed"] := by
  have hurl : keyUrl origin' keyHash ≠ keyUrl origin keyHash := by
    intro heq
    refine h (String.toList_injective ?_)
    have := congrArg String.toList heq
    simpa [keyUrl] using this
  simp [resolve, lookupJson, onlyKey, hurl]

theorem after_isSome {cache : IdentityCache} {key : String} (stored : Option (String × Json))
    (h : (cache key).isSome = true) : (cache.after stored key).isSome = true := by
  cases stored with
  | none => exact h
  | some stored =>
    obtain ⟨key', document⟩ := stored
    rw [IdentityCache.after]
    by_cases hkey : key = key'
    · subst hkey
      rw [Function.update_self]
      rfl
    · rw [Function.update_of_ne hkey]
      exact h

/-- After an input that the gateway answers completely, its key is in the cache. -/
theorem cacheAfter_known {inputs : List Json} {input : Json} {key origin : String} (hin : input ∈ inputs)
    (hkey : keyHashOf sha256Hex input = some key) (horigin : upstreamOrigin input = some origin)
    (hcomplete : (resolve gateway key origin).complete = true) :
    (cacheAfter sha256Hex gateway noCache inputs key).isSome = true := by
  induction inputs using List.reverseRecOn with
  | nil => cases hin
  | append_singleton inputs last ih =>
    rw [cacheAfter_concat]
    rcases List.mem_append.mp hin with hin | hin
    · exact after_isSome _ (ih hin)
    · obtain rfl : input = last := List.mem_singleton.mp hin
      cases hcache : cacheAfter sha256Hex gateway noCache inputs key with
      | some document => exact after_isSome _ (by rw [hcache]; rfl)
      | none =>
        have hmiss : cachedIdentity (cacheAfter sha256Hex gateway noCache inputs) key = none := by
          rw [cachedIdentity, hcache]
          rfl
        simp only [identity, hkey, hmiss, horigin, hcomplete, if_true, IdentityCache.after,
          Function.update_self, Option.isSome_some]

/-- The tags of a hook's output. -/
def tagsOf (output : Json) : List String :=
  (((output.get "tags").bind Json.asArray).getD []).filterMap Json.asStr

theorem tagsOf_hookOutput (fields : HookFields) : tagsOf (hookOutput fields) = fields.tags :=
  filterMap_asStr fields.tags

/-- A key at two origins: there is a gateway for which the second input shows the cache. -/
theorem output_stale {inputs : List Json} {earlier later : Json} (hin : earlier ∈ inputs)
    (h : ¬SameOrigin sha256Hex earlier later) :
    ∃ gateway, (identity sha256Hex gateway (cacheAfter sha256Hex gateway noCache inputs) later).output ≠
      freshOutput sha256Hex gateway later := by
  simp only [SameOrigin, not_forall, not_or] at h
  obtain ⟨key, hkey, hkey', hsome, hne⟩ := h
  obtain ⟨origin, horigin⟩ := Option.ne_none_iff_exists'.mp hsome
  refine ⟨onlyKey origin key, fun heq => ?_⟩
  have hcomplete : (resolve (onlyKey origin key) key origin).complete = true := by
    rw [resolve_onlyKey]
  obtain ⟨document, hdoc⟩ := Option.isSome_iff_exists.mp (cacheAfter_known hin hkey horigin hcomplete)
  obtain ⟨input, -, origin', -, -, hcomplete', rfl⟩ := cacheAfter_sound inputs hdoc
  obtain rfl : origin' = origin := by
    by_contra hother
    rw [(resolve_onlyKey_ne hother).1] at hcomplete'
    cases hcomplete'
  rw [identity_hit hkey' hcomplete' hdoc] at heq
  have htags := congrArg tagsOf heq
  rw [tagsOf_hookOutput, resolve_onlyKey] at htags
  cases hlater : upstreamOrigin later with
  | none =>
    have hnone : cachedIdentity noCache key = none := rfl
    simp only [freshOutput, identity, hkey', hnone, hlater, tagsOf_hookOutput] at htags
    cases htags
  | some origin'' =>
    have hother : origin'' ≠ origin' := fun hsame => hne (by rw [horigin, hlater, hsame])
    rw [fresh_resolve hkey' hlater, tagsOf_hookOutput, (resolve_onlyKey_ne hother).2] at htags
    simp at htags

end

/-- Caching is transparent under every gateway exactly when each key goes to one origin. -/
theorem identity_cache_transparent_iff (sha256Hex : Bytes → String) (inputs : List Json) :
    (∀ gateway, hookOutputs sha256Hex gateway noCache inputs =
      inputs.map (freshOutput sha256Hex gateway)) ↔ inputs.Pairwise (SameOrigin sha256Hex) := by
  induction inputs using List.reverseRecOn with
  | nil => exact ⟨fun _ => .nil, fun _ _ => rfl⟩
  | append_singleton inputs last ih =>
    have hsplit : ∀ gateway, hookOutputs sha256Hex gateway noCache (inputs ++ [last]) =
          (inputs ++ [last]).map (freshOutput sha256Hex gateway) ↔
        hookOutputs sha256Hex gateway noCache inputs = inputs.map (freshOutput sha256Hex gateway) ∧
          (identity sha256Hex gateway (cacheAfter sha256Hex gateway noCache inputs) last).output =
            freshOutput sha256Hex gateway last := by
      intro gateway
      rw [hookOutputs_concat, List.map_append, List.map_singleton]
      refine ⟨fun h => ?_, fun h => by rw [h.1, h.2]⟩
      obtain ⟨hinit, hlast⟩ := List.append_inj' h rfl
      exact ⟨hinit, List.head_eq_of_cons_eq hlast⟩
    simp only [hsplit, forall_and, ih, List.pairwise_append, List.pairwise_singleton, true_and,
      List.mem_singleton, forall_eq]
    refine and_congr_right fun _ => ⟨fun h earlier hin => ?_, fun h gateway => output_fresh h⟩
    by_contra hother
    obtain ⟨gateway, hne⟩ := output_stale hin hother
    exact hne (h gateway)

/-- SHA-256 on the key `sk-1`. -/
def sampleKeyHash (bytes : Bytes) : String :=
  if bytes = utf8 "sk-1".toList then
    "0f2c10bf3d128c719c6bfa4ecbae94b7fceebaea6e4438fef38a90e5acc326f3"
  else ""

/-- A request with the key `sk-1` to an upstream. -/
def sampleInput (upstream : String) : Json :=
  .obj [("headers", .obj [("authorization", .str "Bearer sk-1")]), ("upstream_url", .str upstream)]

/-- The key is known to the gateway `a` only; the request to `b` after one to `a` is answered from the
    cache. -/
theorem stale_identity_served :
    ∃ gateway, hookOutputs sampleKeyHash gateway noCache
        [sampleInput "http://a/v1", sampleInput "http://b/v1"] ≠
      [sampleInput "http://a/v1", sampleInput "http://b/v1"].map
        (freshOutput sampleKeyHash gateway) := by
  refine ⟨onlyKey "http://a" (sampleKeyHash (utf8 "sk-1".toList)), fun heq => ?_⟩
  have htags := congrArg (fun outputs => outputs.map tagsOf) heq
  revert htags
  decide

/-! ### Only complete answers count -/

/-- The warnings of a hook's output. -/
def warningsOf (output : Json) : List String :=
  (((output.get "warnings").bind Json.asArray).getD []).filterMap Json.asStr

theorem warningsOf_hookOutput (fields : HookFields) :
    warningsOf (hookOutput fields) = fields.warnings :=
  filterMap_asStr fields.warnings

/-- The object under `field` in a response with status 200. -/
def objectIn (gateway : Gateway) (url field : String) : Option (List (String × Json)) :=
  ((okBody gateway url).bind fun document => document.get field).bind Json.asObject

/-- The tags that show a failure. -/
def failureTags : List String := ["litellm_no_credential", "litellm_identity_lookup_failed"]

section
variable (sha256Hex : Bytes → String) (gateway : Gateway) (input : Json)

/-- The key lookup found an `info` object and, when that names a user, the lookup of this user was made
    and found a `user_info` object. -/
def CompleteAnswers (made : List String) : Prop :=
  ∃ keyHash origin info, keyHashOf sha256Hex input = some keyHash ∧
    upstreamOrigin input = some origin ∧ keyUrl origin keyHash ∈ made ∧
    objectIn gateway (keyUrl origin keyHash) "info" = some info ∧
    ∀ user, (fetch "user_id" info).bind Json.asStr = some user → user ≠ "" →
      userUrl origin user ∈ made ∧ (objectIn gateway (userUrl origin user) "user_info").isSome = true

/-- Only complete answers are stored or tagged as keys without a user; anything else shows as a failure. -/
def OnlyComplete (result : HookResult) : Prop :=
  (result.stored.isSome = true ∨ "litellm_key_without_user" ∈ tagsOf result.output →
    CompleteAnswers sha256Hex gateway input result.lookups) ∧
  (¬CompleteAnswers sha256Hex gateway input result.lookups →
    result.stored = none ∧
      ((∃ tag ∈ tagsOf result.output, tag ∈ failureTags) ∨ warningsOf result.output ≠ []))

/-- The gateway's documents have the expected objects, and a user that is found fits into a field. -/
def WellShaped : Prop :=
  ∀ keyHash origin document, keyHashOf sha256Hex input = some keyHash →
    upstreamOrigin input = some origin → okBody gateway (keyUrl origin keyHash) = some document →
    ∃ info, (document.get "info").bind Json.asObject = some info ∧
      ∀ user, (fetch "user_id" info).bind Json.asStr = some user → user ≠ "" →
        ∀ answer, okBody gateway (userUrl origin (bounded user)) = some answer →
          ((answer.get "user_info").bind Json.asObject).isSome = true ∧
            utf8Len user.toList ≤ maxFieldBytes

end

/-! ### URLs -/

theorem hexDigit_inj {m n : ℕ} (hm : m < 16) (hn : n < 16) (h : hexDigit m = hexDigit n) : m = n := by
  have hall : ∀ i j : Fin 16, hexDigit i = hexDigit j → i = j := by decide
  exact congrArg Fin.val (hall ⟨m, hm⟩ ⟨n, hn⟩ h)

theorem charOfByte_inj {a b : UInt8} (h : Char.ofNat a.toNat = Char.ofNat b.toNat) : a = b := by
  have hnat := congrArg Char.toNat h
  have ha := a.toNat_lt
  have hb := b.toNat_lt
  rw [Char.toNat_ofNat, Char.toNat_ofNat, if_pos (.inl (by omega)), if_pos (.inl (by omega))] at hnat
  exact UInt8.toNat_inj.mp hnat

/-- An escape starts with `%`, and nothing else does. -/
theorem percentEncodeByte_cases (b : UInt8) :
    percentEncodeByte b = [Char.ofNat b.toNat] ∧ Char.ofNat b.toNat ≠ '%' ∨
      percentEncodeByte b = ['%', hexDigit (b.toNat / 16), hexDigit (b.toNat % 16)] := by
  simp only [percentEncodeByte]
  split
  · rename_i hplain
    refine .inl ⟨rfl, fun hpercent => ?_⟩
    rw [hpercent] at hplain
    exact absurd hplain (by decide)
  · exact .inr rfl

theorem percentEncodeByte_append {a b : UInt8} {s t : List Char}
    (h : percentEncodeByte a ++ s = percentEncodeByte b ++ t) : a = b ∧ s = t := by
  rcases percentEncodeByte_cases a with ⟨ha, hna⟩ | ha <;>
    rcases percentEncodeByte_cases b with ⟨hb, hnb⟩ | hb <;> rw [ha, hb] at h
  · simp only [List.cons_append, List.nil_append, List.cons.injEq] at h
    exact ⟨charOfByte_inj h.1, h.2⟩
  · exact absurd (List.cons.inj h).1 hna
  · exact absurd (List.cons.inj h).1.symm hnb
  · simp only [List.cons_append, List.nil_append, List.cons.injEq, true_and] at h
    have hlt := a.toNat_lt
    have hlt' := b.toNat_lt
    have hhigh := hexDigit_inj (by omega) (by omega) h.1
    have hlow := hexDigit_inj (by omega) (by omega) h.2.1
    exact ⟨UInt8.toNat_inj.mp (by omega), h.2.2⟩

theorem flatMap_percentEncodeByte_inj : ∀ {s t : Bytes},
    s.flatMap percentEncodeByte = t.flatMap percentEncodeByte → s = t
  | [], [], _ => rfl
  | [], b :: t, h => by
      rcases percentEncodeByte_cases b with ⟨hb, -⟩ | hb <;> simp [hb] at h
  | a :: s, [], h => by
      rcases percentEncodeByte_cases a with ⟨ha, -⟩ | ha <;> simp [ha] at h
  | a :: s, b :: t, h => by
      rw [List.flatMap_cons, List.flatMap_cons] at h
      obtain ⟨rfl, hrest⟩ := percentEncodeByte_append h
      rw [flatMap_percentEncodeByte_inj hrest]

theorem userUrl_inj {origin user user' : String} (h : userUrl origin user = userUrl origin user') :
    user = user' := by
  have hlist := congrArg String.toList h
  simp only [userUrl, percentEncode, String.toList_append, String.toList_ofList,
    List.append_cancel_left_eq] at hlist
  exact String.toList_injective (utf8_injective (flatMap_percentEncodeByte_inj hlist))

theorem userUrl_ne_keyUrl (origin user keyHash : String) :
    userUrl origin user ≠ keyUrl origin keyHash := by
  intro h
  have hlist := congrArg String.toList h
  simp only [userUrl, keyUrl, String.toList_append, List.append_cancel_left_eq] at hlist
  cases hlist

theorem bounded_eq_self {value : String} :
    bounded value = value ↔ utf8Len value.toList ≤ maxFieldBytes := by
  rw [← truncateUtf8_eq_self, bounded]
  constructor
  · intro h
    have := congrArg String.toList h
    rwa [String.toList_ofList] at this
  · intro h
    rw [h, String.ofList_toList]

/-! ### The outcomes of a resolution -/

section
variable {sha256Hex : Bytes → String} {gateway : Gateway} {input : Json} {keyHash origin : String}

theorem objectIn_of_okBody {url : String} {document : Json} (h : okBody gateway url = some document)
    (field : String) : objectIn gateway url field = (document.get field).bind Json.asObject := by
  rw [objectIn, h, Option.bind_some]

theorem resolve_failed (h : okBody gateway (keyUrl origin keyHash) = none) :
    (resolve gateway keyHash origin).complete = false ∧
      (resolve gateway keyHash origin).fields.tags = ["litellm_identity_lookup_failed"] := by
  simp only [resolve, lookupJson_fst, h, and_self]

/-- What is known after the key lookup. -/
def keyAnswer (keyHash : String) (document : Json) : HookFields :=
  match (document.get "info").bind Json.asObject with
  | some info =>
    { userId := userOf info
      customFields := copyStringField info "org_id" (copyStringField info "team_id"
        (copyStringField info "key_alias" (keyFields keyHash))) }
  | none => { customFields := keyFields keyHash }

theorem keyAnswer_tags (keyHash : String) (document : Json) :
    (keyAnswer keyHash document).tags = [] ∧ (keyAnswer keyHash document).warnings = [] := by
  unfold keyAnswer
  split <;> exact ⟨rfl, rfl⟩

theorem resolve_answered {document : Json} (h : okBody gateway (keyUrl origin keyHash) = some document) :
    resolve gateway keyHash origin =
      let user := resolveUser gateway origin (keyAnswer keyHash document)
      ⟨user.fields, user.complete, keyUrl origin keyHash :: user.lookups⟩ := by
  have hwarn := (lookupJson_snd gateway (keyUrl origin keyHash) "litellm key lookup").mpr
    (by rw [h]; rfl)
  simp only [resolve, lookupJson_fst, h, hwarn, keyAnswer]

theorem resolveUser_keyless {fields : HookFields} (h : fields.userId = none) :
    resolveUser gateway origin fields =
      ⟨{ fields with tags := fields.tags ++ ["litellm_key_without_user"] }, true, []⟩ := by
  simp only [resolveUser, h]

theorem resolveUser_found {fields : HookFields} {user : String} (h : fields.userId = some user)
    {info : List (String × Json)}
    (hinfo : objectIn gateway (userUrl origin user) "user_info" = some info) :
    (resolveUser gateway origin fields).complete = true ∧
      (resolveUser gateway origin fields).fields.tags = fields.tags ∧
      (resolveUser gateway origin fields).lookups = [userUrl origin user] := by
  rw [objectIn] at hinfo
  simp only [resolveUser, h, lookupJson_fst, hinfo, addUserInfo, and_self]

theorem resolveUser_missing {fields : HookFields} {user : String} (h : fields.userId = some user)
    (hinfo : objectIn gateway (userUrl origin user) "user_info" = none)
    (hwarn : fields.warnings = []) :
    (resolveUser gateway origin fields).complete = false ∧
      (resolveUser gateway origin fields).fields.tags = fields.tags ∧
      ((resolveUser gateway origin fields).fields.warnings = [] ↔
        (okBody gateway (userUrl origin user)).isSome = true) ∧
      (resolveUser gateway origin fields).lookups = [userUrl origin user] := by
  rw [objectIn] at hinfo
  simp only [resolveUser, h, lookupJson_fst, hinfo, hwarn, List.nil_append, lookupJson_snd, and_self]

/-! ### When only complete answers count -/

theorem completeAnswers_iff (hkey : keyHashOf sha256Hex input = some keyHash)
    (horigin : upstreamOrigin input = some origin) {made : List String} :
    CompleteAnswers sha256Hex gateway input made ↔
      keyUrl origin keyHash ∈ made ∧
        ∃ info, objectIn gateway (keyUrl origin keyHash) "info" = some info ∧
          ∀ user, (fetch "user_id" info).bind Json.asStr = some user → user ≠ "" →
            userUrl origin user ∈ made ∧
              (objectIn gateway (userUrl origin user) "user_info").isSome = true := by
  constructor
  · rintro ⟨keyHash', origin', info, hkey', horigin', hmade, hinfo, husers⟩
    rw [hkey] at hkey'
    rw [horigin] at horigin'
    cases hkey'
    cases horigin'
    exact ⟨hmade, info, hinfo, husers⟩
  · rintro ⟨hmade, info, hinfo, husers⟩
    exact ⟨keyHash, origin, info, hkey, horigin, hmade, hinfo, husers⟩

theorem wellShaped_iff (hkey : keyHashOf sha256Hex input = some keyHash)
    (horigin : upstreamOrigin input = some origin) :
    WellShaped sha256Hex gateway input ↔
      ∀ document, okBody gateway (keyUrl origin keyHash) = some document →
        ∃ info, (document.get "info").bind Json.asObject = some info ∧
          ∀ user, (fetch "user_id" info).bind Json.asStr = some user → user ≠ "" →
            ∀ answer, okBody gateway (userUrl origin (bounded user)) = some answer →
              ((answer.get "user_info").bind Json.asObject).isSome = true ∧
                utf8Len user.toList ≤ maxFieldBytes := by
  refine ⟨fun h document hdoc => h keyHash origin document hkey horigin hdoc, ?_⟩
  rintro h keyHash' origin' document hkey' horigin' hdoc
  rw [hkey] at hkey'
  rw [horigin] at horigin'
  cases hkey'
  cases horigin'
  exact h document hdoc

theorem userOf_eq_none {info : List (String × Json)} (h : userOf info = none) {user : String}
    (huser : (fetch "user_id" info).bind Json.asStr = some user) : user = "" := by
  rw [userOf, huser, Option.map_eq_none_iff, Option.filter_eq_none_iff] at h
  simpa using h user rfl

theorem userOf_eq_some {info : List (String × Json)} {id : String} (h : userOf info = some id) :
    ∃ user, (fetch "user_id" info).bind Json.asStr = some user ∧ user ≠ "" ∧ id = bounded user := by
  rw [userOf, Option.map_eq_some_iff] at h
  obtain ⟨user, huser, rfl⟩ := h
  rw [Option.filter_eq_some_iff] at huser
  exact ⟨user, huser.1, by simpa using huser.2, rfl⟩

/-- The lookup of a user is made for its cut name, so it is complete only when nothing was cut. -/
theorem completeAnswers_user (hkey : keyHashOf sha256Hex input = some keyHash)
    (horigin : upstreamOrigin input = some origin) {info : List (String × Json)} {user : String}
    (hobj : objectIn gateway (keyUrl origin keyHash) "info" = some info)
    (huser : (fetch "user_id" info).bind Json.asStr = some user) (hne : user ≠ "") :
    CompleteAnswers sha256Hex gateway input
        [keyUrl origin keyHash, userUrl origin (bounded user)] ↔
      utf8Len user.toList ≤ maxFieldBytes ∧
        (objectIn gateway (userUrl origin (bounded user)) "user_info").isSome = true := by
  rw [completeAnswers_iff hkey horigin, ← bounded_eq_self]
  constructor
  · rintro ⟨-, info', hobj', husers⟩
    rw [hobj] at hobj'
    cases hobj'
    obtain ⟨hmade, hfound⟩ := husers user huser hne
    have hsame : userUrl origin user = userUrl origin (bounded user) := by
      rcases List.mem_cons.mp hmade with hmade | hmade
      · exact absurd hmade (userUrl_ne_keyUrl _ _ _)
      · exact List.mem_singleton.mp hmade
    rw [← hsame]
    exact ⟨(userUrl_inj hsame).symm, hfound⟩
  · rintro ⟨hfit, hfound⟩
    refine ⟨List.mem_cons_self, info, hobj, fun user' huser' _ => ?_⟩
    rw [huser] at huser'
    cases huser'
    rw [hfit] at hfound ⊢
    exact ⟨by simp, hfound⟩

theorem wellShaped_user (hkey : keyHashOf sha256Hex input = some keyHash)
    (horigin : upstreamOrigin input = some origin) {document : Json}
    (hdoc : okBody gateway (keyUrl origin keyHash) = some document) {info : List (String × Json)}
    (hinfo : (document.get "info").bind Json.asObject = some info) {user : String}
    (huser : (fetch "user_id" info).bind Json.asStr = some user) (hne : user ≠ "") :
    WellShaped sha256Hex gateway input ↔
      ∀ answer, okBody gateway (userUrl origin (bounded user)) = some answer →
        ((answer.get "user_info").bind Json.asObject).isSome = true ∧
          utf8Len user.toList ≤ maxFieldBytes := by
  rw [wellShaped_iff hkey horigin]
  constructor
  · intro h
    obtain ⟨info', hsome, husers⟩ := h document hdoc
    rw [hinfo] at hsome
    cases hsome
    exact husers user huser hne
  · intro h document' hdoc'
    rw [hdoc] at hdoc'
    cases hdoc'
    refine ⟨info, hinfo, fun user' huser' _ => ?_⟩
    rw [huser] at huser'
    cases huser'
    exact h

/-- The failures show in what is put out. -/
theorem onlyComplete_iff {fields : HookFields} {stored : Option (String × Json)} {made : List String} :
    OnlyComplete sha256Hex gateway input ⟨hookOutput fields, stored, made⟩ ↔
      (stored.isSome = true ∨ "litellm_key_without_user" ∈ fields.tags →
        CompleteAnswers sha256Hex gateway input made) ∧
      (¬CompleteAnswers sha256Hex gateway input made →
        ¬stored.isSome = true ∧
          ((∃ tag ∈ fields.tags, tag ∈ failureTags) ∨ fields.warnings ≠ [])) := by
  rw [OnlyComplete, tagsOf_hookOutput, warningsOf_hookOutput, Option.not_isSome_iff_eq_none]

/-- A document without `info` is taken for a key without a user. -/
theorem not_onlyComplete_shapeless (hkey : keyHashOf sha256Hex input = some keyHash)
    (horigin : upstreamOrigin input = some origin)
    (hobj : objectIn gateway (keyUrl origin keyHash) "info" = none) {fields : HookFields}
    {stored : Option (String × Json)} (hstored : stored.isSome = true) {made : List String} :
    ¬OnlyComplete sha256Hex gateway input ⟨hookOutput fields, stored, made⟩ := by
  intro h
  obtain ⟨-, info, hinfo, -⟩ :=
    (completeAnswers_iff hkey horigin).mp ((onlyComplete_iff.mp h).1 (.inl hstored))
  rw [hobj] at hinfo
  cases hinfo

theorem completeAnswers_keyless (hkey : keyHashOf sha256Hex input = some keyHash)
    (horigin : upstreamOrigin input = some origin) {info : List (String × Json)}
    (hobj : objectIn gateway (keyUrl origin keyHash) "info" = some info) (hid : userOf info = none) :
    CompleteAnswers sha256Hex gateway input [keyUrl origin keyHash] :=
  (completeAnswers_iff hkey horigin).mpr
    ⟨List.mem_cons_self, info, hobj, fun _ huser hne => absurd (userOf_eq_none hid huser) hne⟩

/-- A user that is found is stored, whether or not its name was cut. -/
theorem onlyComplete_found (hkey : keyHashOf sha256Hex input = some keyHash)
    (horigin : upstreamOrigin input = some origin) {info : List (String × Json)} {user : String}
    (hobj : objectIn gateway (keyUrl origin keyHash) "info" = some info)
    (huser : (fetch "user_id" info).bind Json.asStr = some user) (hne : user ≠ "")
    (hfound : (objectIn gateway (userUrl origin (bounded user)) "user_info").isSome = true)
    {fields : HookFields} {stored : Option (String × Json)} (hstored : stored.isSome = true) :
    OnlyComplete sha256Hex gateway input ⟨hookOutput fields, stored,
        [keyUrl origin keyHash, userUrl origin (bounded user)]⟩ ↔
      utf8Len user.toList ≤ maxFieldBytes := by
  rw [onlyComplete_iff, completeAnswers_user hkey horigin hobj huser hne]
  constructor
  · intro h
    exact (h.1 (.inl hstored)).1
  · intro hfit
    exact ⟨fun _ => ⟨hfit, hfound⟩, fun hno => absurd ⟨hfit, hfound⟩ hno⟩

/-- For a user that is not found nothing is stored; what is missing is a warning. -/
theorem onlyComplete_missing (hkey : keyHashOf sha256Hex input = some keyHash)
    (horigin : upstreamOrigin input = some origin) {info : List (String × Json)} {user : String}
    (hobj : objectIn gateway (keyUrl origin keyHash) "info" = some info)
    (huser : (fetch "user_id" info).bind Json.asStr = some user) (hne : user ≠ "")
    (hmissing : objectIn gateway (userUrl origin (bounded user)) "user_info" = none)
    {fields : HookFields} (htags : fields.tags = []) {stored : Option (String × Json)}
    (hstored : stored.isSome = false) :
    OnlyComplete sha256Hex gateway input ⟨hookOutput fields, stored,
        [keyUrl origin keyHash, userUrl origin (bounded user)]⟩ ↔
      fields.warnings ≠ [] := by
  rw [onlyComplete_iff, completeAnswers_user hkey horigin hobj huser hne, hmissing, htags, hstored]
  simp

/-- The resolution of a key: only complete answers count exactly when the answers are well shaped. -/
theorem onlyComplete_resolve (hkey : keyHashOf sha256Hex input = some keyHash)
    (horigin : upstreamOrigin input = some origin) {stored : Option (String × Json)}
    (hstored : stored.isSome = (resolve gateway keyHash origin).complete) :
    OnlyComplete sha256Hex gateway input
        ⟨hookOutput (resolve gateway keyHash origin).fields, stored,
          (resolve gateway keyHash origin).lookups⟩ ↔
      WellShaped sha256Hex gateway input := by
  cases hdoc : okBody gateway (keyUrl origin keyHash) with
  | none =>
    obtain ⟨hcomplete, htags⟩ := resolve_failed hdoc
    rw [onlyComplete_iff, wellShaped_iff hkey horigin, hstored, hcomplete, htags, hdoc]
    simp [failureTags]
  | some document =>
    obtain ⟨htags, hwarn⟩ := keyAnswer_tags keyHash document
    simp only [resolve_answered hdoc] at hstored ⊢
    cases hinfo : (document.get "info").bind Json.asObject with
    | none =>
      have huser : (keyAnswer keyHash document).userId = none := by simp [keyAnswer, hinfo]
      have hobj : objectIn gateway (keyUrl origin keyHash) "info" = none := by
        rw [objectIn_of_okBody hdoc, hinfo]
      rw [resolveUser_keyless huser] at hstored ⊢
      refine iff_of_false (not_onlyComplete_shapeless hkey horigin hobj hstored) fun h => ?_
      obtain ⟨info, hsome, -⟩ := (wellShaped_iff hkey horigin).mp h document hdoc
      rw [hinfo] at hsome
      cases hsome
    | some info =>
      have huser : (keyAnswer keyHash document).userId = userOf info := by simp [keyAnswer, hinfo]
      have hobj : objectIn gateway (keyUrl origin keyHash) "info" = some info := by
        rw [objectIn_of_okBody hdoc, hinfo]
      cases hid : userOf info with
      | none =>
        have hcomplete := completeAnswers_keyless hkey horigin hobj hid
        rw [resolveUser_keyless (huser.trans hid)]
        refine iff_of_true ⟨fun _ => hcomplete, fun h => absurd hcomplete h⟩ ?_
        refine (wellShaped_iff hkey horigin).mpr fun document' hdoc' => ?_
        rw [hdoc] at hdoc'
        cases hdoc'
        exact ⟨info, hinfo, fun _ hu hne => absurd (userOf_eq_none hid hu) hne⟩
      | some id =>
        obtain ⟨user, hu, hne, rfl⟩ := userOf_eq_some hid
        rw [wellShaped_user hkey horigin hdoc hinfo hu hne]
        cases hfound : objectIn gateway (userUrl origin (bounded user)) "user_info" with
        | some uinfo =>
          obtain ⟨hdone, -, hmade⟩ := resolveUser_found (huser.trans hid) hfound
          have hsome := congrArg Option.isSome hfound
          rw [hdone] at hstored
          rw [hmade, onlyComplete_found hkey horigin hobj hu hne hsome hstored]
          cases hanswer : okBody gateway (userUrl origin (bounded user)) with
          | none =>
            rw [objectIn, hanswer] at hfound
            cases hfound
          | some answer =>
            rw [objectIn_of_okBody hanswer] at hfound
            simp [hfound]
        | none =>
          obtain ⟨hdone, htag, hwarns, hmade⟩ := resolveUser_missing (huser.trans hid) hfound hwarn
          rw [hdone] at hstored
          rw [hmade, onlyComplete_missing hkey horigin hobj hu hne hfound (htag.trans htags) hstored,
            ne_eq, hwarns]
          cases hanswer : okBody gateway (userUrl origin (bounded user)) with
          | none => simp
          | some answer =>
            rw [objectIn_of_okBody hanswer] at hfound
            simp [hfound]

end

/-- What a hit puts out is the stored resolution of an earlier input with the same key, which had
    complete answers if the gateway's answers were well shaped. -/
theorem hit_repeats_resolution {sha256Hex : Bytes → String} {gateway : Gateway} (inputs : List Json)
    {input : Json} {keyHash : String} (hkey : keyHashOf sha256Hex input = some keyHash)
    (hhit : (cachedIdentity (cacheAfter sha256Hex gateway noCache inputs) keyHash).isSome = true) :
    ∃ earlier ∈ inputs, ∃ origin, keyHashOf sha256Hex earlier = some keyHash ∧
      upstreamOrigin earlier = some origin ∧
      (identity sha256Hex gateway (cacheAfter sha256Hex gateway noCache inputs) input).output =
        hookOutput (resolve gateway keyHash origin).fields ∧
      (WellShaped sha256Hex gateway earlier →
        CompleteAnswers sha256Hex gateway earlier (resolve gateway keyHash origin).lookups) := by
  obtain ⟨document, hdocument⟩ := Option.isSome_iff_exists.mp hhit
  have hcache := (Option.filter_eq_some_iff.mp hdocument).1
  obtain ⟨earlier, hin, origin, hhash, horigin, hcomplete, rfl⟩ := cacheAfter_sound inputs hcache
  refine ⟨earlier, hin, origin, hhash, horigin, by rw [identity_hit hkey hcomplete hcache], fun hshaped => ?_⟩
  have hstored : (some (keyHash, Json.null)).isSome = (resolve gateway keyHash origin).complete := by
    rw [hcomplete, Option.isSome_some]
  exact ((onlyComplete_resolve hhash horigin hstored).mpr hshaped).1 (.inl rfl)

/-- On a hit nothing is asked or stored, and what is put out is the resolution that was stored. On a
    miss, only complete answers are stored or tagged, and everything else shows as a failure, exactly
    when the gateway's answers are well shaped. -/
theorem identity_complete_iff (sha256Hex : Bytes → String) (gateway : Gateway) (cache : IdentityCache)
    (input : Json) :
    (∀ inputs keyHash, cache = cacheAfter sha256Hex gateway noCache inputs →
      keyHashOf sha256Hex input = some keyHash → (cachedIdentity cache keyHash).isSome = true →
      ∃ earlier ∈ inputs, ∃ origin, keyHashOf sha256Hex earlier = some keyHash ∧
        upstreamOrigin earlier = some origin ∧
        (identity sha256Hex gateway cache input).output =
          hookOutput (resolve gateway keyHash origin).fields ∧
        (WellShaped sha256Hex gateway earlier →
          CompleteAnswers sha256Hex gateway earlier (resolve gateway keyHash origin).lookups)) ∧
    (((keyHashOf sha256Hex input).bind (cachedIdentity cache)).isSome = true →
      (identity sha256Hex gateway cache input).stored = none ∧
        (identity sha256Hex gateway cache input).lookups = []) ∧
    ((keyHashOf sha256Hex input).bind (cachedIdentity cache) = none →
      (OnlyComplete sha256Hex gateway input (identity sha256Hex gateway cache input) ↔
        WellShaped sha256Hex gateway input)) := by
  refine ⟨fun inputs keyHash hcache hkey hhit => ?_, ?_⟩
  · subst hcache
    exact hit_repeats_resolution inputs hkey hhit
  cases hkey : keyHashOf sha256Hex input with
  | none =>
    refine ⟨by simp, fun _ => iff_of_true ?_ fun keyHash origin document h => ?_⟩
    · simp only [identity, hkey, OnlyComplete, tagsOf_hookOutput]
      refine ⟨?_, fun _ => ⟨trivial, .inl ⟨_, List.mem_cons_self, by decide⟩⟩⟩
      simp
    · rw [hkey] at h
      cases h
  | some keyHash =>
    rw [Option.bind_some]
    refine ⟨fun hhit => ?_, fun hmiss => ?_⟩
    · obtain ⟨document, hdoc⟩ := Option.isSome_iff_exists.mp hhit
      simp only [identity, hkey, hdoc, and_self]
    cases horigin : upstreamOrigin input with
    | none =>
      refine iff_of_true ?_ fun keyHash origin document _ h => ?_
      · simp only [identity, hkey, hmiss, horigin, OnlyComplete, tagsOf_hookOutput,
          warningsOf_hookOutput]
        refine ⟨?_, fun _ => ⟨trivial, .inr (by simp)⟩⟩
        simp
      · rw [horigin] at h
        cases h
    | some origin =>
      simp only [identity, hkey, hmiss, horigin]
      exact onlyComplete_resolve hkey horigin (by split <;> simp_all)

/-- A key lookup that returns an empty object is stored as a key without a user. -/
theorem shapeless_answer_stored :
    let gateway : Gateway := fun _ => some ⟨200, some (.obj [])⟩
    let result := identity sampleKeyHash gateway noCache (sampleInput "http://a/v1")
    result.stored.isSome = true ∧ "litellm_key_without_user" ∈ tagsOf result.output ∧
      ¬CompleteAnswers sampleKeyHash gateway (sampleInput "http://a/v1") result.lookups := by
  refine ⟨by decide, by decide, ?_⟩
  rintro ⟨keyHash, origin, info, -, -, -, hinfo, -⟩
  cases hinfo

end Llmtrace.Plugins
