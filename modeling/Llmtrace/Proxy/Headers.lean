import Llmtrace.Proxy.Redaction

/-! Which headers cross the proxy (`should_forward_header`, `should_forward_response_header` and the
    websocket handshake in `proxy.rs`).

    A header that is about one connection only must not reach the next one: the hop-by-hop headers, and
    whatever a `Connection` header names. What is left of a message names nothing any more, so a second
    proxy behind the first takes nothing else away. The handshake with a websocket upstream is a
    request of its own: the client's headers are inserted into it, and cannot replace what makes it a
    handshake. -/

namespace Llmtrace.Proxy
open Schemes

/-! ### Header maps -/

/-- `headers.get_all(name)` -/
def HeaderMap.getAll (headers : HeaderMap) (name : List Char) : List Bytes :=
  (headers.filter fun h => h.1 = name).map Prod.snd

/-- `headers.insert(name, value)`: one value is left under the name. -/
def HeaderMap.insert (headers : HeaderMap) (name : List Char) (value : Bytes) : HeaderMap :=
  headers.filter (fun h => h.1 ≠ name) ++ [(name, value)]

/-! ### The decision about one header -/

/-- `HOP_BY_HOP_HEADERS` -/
def hopByHopHeaders : List (List Char) :=
  ["connection", "keep-alive", "proxy-authenticate", "proxy-authorization", "te", "trailer",
    "transfer-encoding", "upgrade"].map String.toList

/-- `eq_ignore_ascii_case` -/
def eqIgnoreAsciiCase (left right : List Char) : Bool := toAsciiLowercase left == toAsciiLowercase right

/-- `connection_header_names` -/
def connectionHeaderNames (headers : HeaderMap) (name : List Char) : Bool :=
  (((headers.getAll "connection".toList).filterMap toStr).flatMap fun value => value.splitOn ',').any
    fun token => eqIgnoreAsciiCase (trim token) name

/-- `should_forward_header` -/
def shouldForwardHeader (name : List Char) (headers : HeaderMap) (forwardCookies : Bool) : Bool :=
  let name := toAsciiLowercase name
  name != "host".toList && (forwardCookies || name != "cookie".toList) &&
    !hopByHopHeaders.contains name && !connectionHeaderNames headers name &&
    !"x-llmtrace-".toList.isPrefixOf name

/-- `should_forward_response_header` -/
def shouldForwardResponseHeader (name : List Char) (headers : HeaderMap) (forwardCookies : Bool) : Bool :=
  let name := toAsciiLowercase name
  (forwardCookies || name != "set-cookie".toList) && !hopByHopHeaders.contains name &&
    !connectionHeaderNames headers name

/-- The request asks for a websocket. -/
def isWebsocket (headers : HeaderMap) : Bool :=
  connectionHeaderNames headers "upgrade".toList &&
    ((headers.first "upgrade".toList).bind toStr).any fun value =>
      eqIgnoreAsciiCase value "websocket".toList

/-! ### Whole messages -/

/-- The headers of a request that is sent upstream over HTTP. -/
def requestHeaders (forwardCookies : Bool) (headers : HeaderMap) : HeaderMap :=
  headers.filter fun h => shouldForwardHeader h.1 headers forwardCookies

/-- The headers of a response that is given to the client. -/
def responseHeaders (forwardCookies : Bool) (headers : HeaderMap) : HeaderMap :=
  headers.filter fun h => shouldForwardResponseHeader h.1 headers forwardCookies

/-- The headers of the handshake with a websocket upstream: `own` are those that the websocket library
    makes for the URL. -/
def handshakeHeaders (own : HeaderMap) (forwardCookies : Bool) (headers : HeaderMap) : HeaderMap :=
  headers.foldl (fun sent h =>
    if shouldForwardHeader h.1 headers forwardCookies then sent.insert h.1 h.2 else sent) own

/-! ### What is withheld -/

/-- A header that ends here: it is about this connection, or some `Connection` header names it. -/
def HopByHop (headers : HeaderMap) (name : List Char) : Prop :=
  name ∈ hopByHopHeaders ∨ ∃ value ∈ headers.getAll "connection".toList, ∃ text, toStr value = some text ∧
    ∃ token ∈ text.splitOn ',', toAsciiLowercase (trim token) = toAsciiLowercase name

/-- A request header that the upstream does not get. -/
def Withheld (forwardCookies : Bool) (headers : HeaderMap) (name : List Char) : Prop :=
  HopByHop headers (toAsciiLowercase name) ∨ toAsciiLowercase name = "host".toList ∨
    forwardCookies = false ∧ toAsciiLowercase name = "cookie".toList ∨
    "x-llmtrace-".toList <+: toAsciiLowercase name

/-- A response header that the client does not get. -/
def WithheldBack (forwardCookies : Bool) (headers : HeaderMap) (name : List Char) : Prop :=
  HopByHop headers (toAsciiLowercase name) ∨
    forwardCookies = false ∧ toAsciiLowercase name = "set-cookie".toList

section
variable {headers : HeaderMap} {forwardCookies : Bool} {name : List Char}

theorem connectionHeaderNames_iff : connectionHeaderNames headers name = true ↔
    ∃ value ∈ headers.getAll "connection".toList, ∃ text, toStr value = some text ∧
      ∃ token ∈ text.splitOn ',', toAsciiLowercase (trim token) = toAsciiLowercase name := by
  rw [connectionHeaderNames, List.any_eq_true]
  constructor
  · rintro ⟨token, htoken, heq⟩
    obtain ⟨text, htext, hin⟩ := List.mem_flatMap.mp htoken
    obtain ⟨value, hvalue, hread⟩ := List.mem_filterMap.mp htext
    exact ⟨value, hvalue, text, hread, token, hin, beq_iff_eq.mp heq⟩
  · rintro ⟨value, hvalue, text, hread, token, hin, heq⟩
    exact ⟨token, List.mem_flatMap.mpr ⟨text, List.mem_filterMap.mpr ⟨value, hvalue, hread⟩, hin⟩,
      beq_iff_eq.mpr heq⟩

theorem hopByHop_iff : HopByHop headers name ↔
    (hopByHopHeaders.contains name || connectionHeaderNames headers name) = true := by
  rw [Bool.or_eq_true, List.contains_iff_mem, connectionHeaderNames_iff, HopByHop]

theorem shouldForwardHeader_iff :
    shouldForwardHeader name headers forwardCookies = true ↔ ¬ Withheld forwardCookies headers name := by
  rw [Withheld, hopByHop_iff, shouldForwardHeader, ← List.isPrefixOf_iff_prefix]
  simp only [Bool.and_eq_true, Bool.or_eq_true, Bool.not_eq_true', bne_iff_ne]
  cases forwardCookies <;> grind

theorem shouldForwardResponseHeader_iff : shouldForwardResponseHeader name headers forwardCookies = true ↔
    ¬ WithheldBack forwardCookies headers name := by
  rw [WithheldBack, hopByHop_iff, shouldForwardResponseHeader]
  simp only [Bool.and_eq_true, Bool.or_eq_true, Bool.not_eq_true', bne_iff_ne]
  cases forwardCookies <;> grind

/-! ### Filtering -/

/-- Under one name a filter on names keeps all values or none. -/
theorem getAll_filter (p : List Char → Bool) (headers : HeaderMap) (name : List Char) :
    HeaderMap.getAll (headers.filter fun h => p h.1) name =
      if p name = true then headers.getAll name else [] := by
  rw [HeaderMap.getAll, HeaderMap.getAll, List.filter_filter]
  split
  · rename_i hp
    congr 1
    refine List.filter_congr fun h _ => ?_
    by_cases hname : h.1 = name
    · simp [hname, hp]
    · simp [hname]
  · rename_i hp
    rw [List.map_eq_nil_iff, List.filter_eq_nil_iff]
    rintro h - hboth
    simp only [Bool.and_eq_true, decide_eq_true_eq] at hboth
    exact hp (hboth.1 ▸ hboth.2)

/-- Without a `Connection` header nothing is named. -/
theorem connectionHeaderNames_of_none (h : headers.getAll "connection".toList = []) :
    connectionHeaderNames headers name = false := by
  rw [connectionHeaderNames, h]
  rfl

theorem connection_withheld : shouldForwardHeader "connection".toList headers forwardCookies = false ∧
    shouldForwardResponseHeader "connection".toList headers forwardCookies = false := by
  have hhop : HopByHop headers (toAsciiLowercase "connection".toList) := .inl (by decide)
  rw [Bool.eq_false_iff, Bool.eq_false_iff, ne_eq, ne_eq, shouldForwardHeader_iff,
    shouldForwardResponseHeader_iff, not_not, not_not]
  exact ⟨.inl hhop, .inl hhop⟩

/-- A second proxy takes nothing else away. -/
theorem requestHeaders_idem (forwardCookies : Bool) (headers : HeaderMap) :
    requestHeaders forwardCookies (requestHeaders forwardCookies headers) =
      requestHeaders forwardCookies headers := by
  have hnone : (requestHeaders forwardCookies headers).getAll "connection".toList = [] := by
    rw [requestHeaders, getAll_filter fun name => shouldForwardHeader name headers forwardCookies,
      connection_withheld.1]
    rfl
  rw [requestHeaders, List.filter_eq_self]
  intro h hh
  have hkept := (List.mem_filter.mp hh).2
  simp only [shouldForwardHeader, Bool.and_eq_true] at hkept ⊢
  rw [connectionHeaderNames_of_none hnone]
  exact ⟨⟨⟨⟨hkept.1.1.1.1, hkept.1.1.1.2⟩, hkept.1.1.2⟩, rfl⟩, hkept.2⟩

theorem responseHeaders_idem (forwardCookies : Bool) (headers : HeaderMap) :
    responseHeaders forwardCookies (responseHeaders forwardCookies headers) =
      responseHeaders forwardCookies headers := by
  have hnone : (responseHeaders forwardCookies headers).getAll "connection".toList = [] := by
    rw [responseHeaders, getAll_filter fun name => shouldForwardResponseHeader name headers forwardCookies,
      connection_withheld.2]
    rfl
  rw [responseHeaders, List.filter_eq_self]
  intro h hh
  have hkept := (List.mem_filter.mp hh).2
  simp only [shouldForwardResponseHeader, Bool.and_eq_true] at hkept ⊢
  rw [connectionHeaderNames_of_none hnone]
  exact ⟨⟨hkept.1.1, hkept.1.2⟩, rfl⟩

/-- What changes nothing a second time changes nothing any more. -/
theorem iterate_idem {f : HeaderMap → HeaderMap} (hf : ∀ h, f (f h) = f h) (headers : HeaderMap) :
    ∀ n, f^[n + 1] headers = f headers
  | 0 => rfl
  | n + 1 => by rw [Function.iterate_succ_apply', iterate_idem hf headers n, hf]

/-! ### The handshake -/

theorem getAll_insert (headers : HeaderMap) (name other : List Char) (value : Bytes) :
    (headers.insert name value).getAll other = if other = name then [value] else headers.getAll other := by
  rw [HeaderMap.insert, HeaderMap.getAll, List.filter_append, List.map_append, List.filter_filter]
  split
  · rename_i heq
    subst heq
    rw [List.filter_eq_nil_iff.mpr fun h _ => by simp]
    simp
  · rename_i hne
    rw [List.filter_cons_of_neg (by simpa using Ne.symm hne), List.filter_nil, List.map_nil,
      List.append_nil, HeaderMap.getAll]
    congr 1
    refine List.filter_congr fun h _ => ?_
    by_cases hname : h.1 = other
    · simp [hname, hne]
    · simp [hname]

/-- What a name holds after the insertions: the last value that was inserted, or what was there. -/
theorem getAll_inserted (p : List Char → Bool) (name : List Char) : ∀ (headers sent : HeaderMap),
    (headers.foldl (fun sent h => if p h.1 then sent.insert h.1 h.2 else sent) sent).getAll name =
      if p name = true then ((headers.getAll name).getLast?.map fun value => [value]).getD (sent.getAll name)
      else sent.getAll name
  | [], sent => by simp [HeaderMap.getAll]
  | (other, value) :: headers, sent => by
    rw [List.foldl_cons, getAll_inserted p name headers]
    by_cases heq : other = name
    · subst heq
      by_cases hp : p other = true
      · rw [if_pos hp, if_pos hp, if_pos hp, getAll_insert, if_pos rfl]
        have hcons : HeaderMap.getAll ((other, value) :: headers) other =
            value :: HeaderMap.getAll headers other := by simp [HeaderMap.getAll]
        rw [hcons, List.getLast?_cons]
        cases (HeaderMap.getAll headers other).getLast? <;> simp
      · rw [if_neg hp, if_neg hp, if_neg hp]
    · have hcons : HeaderMap.getAll ((other, value) :: headers) name =
          HeaderMap.getAll headers name := by
        simp [HeaderMap.getAll, heq]
      have hsame : HeaderMap.getAll (if p other = true then sent.insert other value else sent) name =
          sent.getAll name := by
        split
        · rw [getAll_insert, if_neg (Ne.symm heq)]
        · rfl
      rw [hcons, hsame]

end

/-- The headers that make a request the handshake of a websocket. -/
def upgradeNames : List (List Char) := ["host", "connection", "upgrade"].map String.toList

end Llmtrace.Proxy
