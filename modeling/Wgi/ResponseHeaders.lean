import Wgi.CgiResponse
import Wgi.LambdaResponse

/-!
# Repeated Response Headers in the Two Modes

A guest may send one header several times: several `Set-Cookie` lines in CGI mode, or a
list of several values in lambda mode. The CGI parser *inserts* every line into the header
map, the lambda conversion *appends* every value.

## Main results

* `repeatedHeaders_iff`: the two modes deliver the same headers, all values in order,
  exactly when no name is repeated in any letter case.
* `setCookie_twice`: with two `Set-Cookie` headers the CGI mode loses the first one.
-/

namespace Wgi

variable {http : Http}

/-- Rendered headers, and nothing before the empty line but them, are inserted in order. -/
theorem fromStr_headers (unicode : Text.Unicode) (headers : List (CgiHeader http)) {body : Str}
    (hbody : headers = [] → body = []) :
    ∃ c, CgiResponse.fromStr http unicode (payload (headers.map .header) body) = .ok c ∧
      c.headers = http.insertPairs http.emptyMap (headers.map CgiHeader.pair) := by
  by_cases hnil : headers = []
  · subst hnil
    rw [hbody rfl]
    exact ⟨⟨http.statusOk, http.emptyMap, ['\n']⟩, rfl, rfl⟩
  · refine ⟨_, fromStr_payload unicode (fun h => hnil (List.map_eq_nil_iff.mp h)) body, ?_⟩
    rw [foldl_apply, headersOf_map_header]

/-- The header a spelling of its name and its value parse to. -/
theorem parsesTo_pair {spell : Str → Str} (hspell : spell = id ∨ spell = Text.toAsciiLowercase)
    (h : CgiHeader http) : ParsesTo http (spell h.name, h.value) h.pair := by
  refine ⟨?_, http.valueFromBytes_of_valueFromStr h.value_eq⟩
  rw [← http.nameFromStr_eq]
  rcases hspell with rfl | rfl
  · exact h.name_eq
  · rw [← (http.token_of_nameFromStr h.name_eq).2]
    exact http.nameFromStr_asStr h.headerName

/-- Headers grouped by name parse to a reordering of the headers. -/
theorem parsesTo_grouped {spell : Str → Str}
    (hspell : spell = id ∨ spell = Text.toAsciiLowercase) {headers : List (CgiHeader http)}
    {entries : List (Str × List Str)}
    (hgroups : Grouping.IsGrouping entries (headers.map fun h => (spell h.name, h.value))) :
    ∃ ps, List.Forall₂ (ParsesTo http) (Grouping.ungroup entries) ps ∧
      ps.Perm (headers.map CgiHeader.pair) := by
  obtain ⟨hs, heq, hperm⟩ := Grouping.exists_map_of_perm hgroups.perm
  refine ⟨hs.map CgiHeader.pair, ?_, hperm.map _⟩
  rw [heq, List.forall₂_map_left_iff, List.forall₂_map_right_iff]
  exact List.forall₂_same.mpr fun h _ => parsesTo_pair hspell h

/-- Under a name that is not repeated, inserting, appending in any order and listing all
values agree. -/
theorem getAll_of_nodup {ps qs : List (http.HeaderName × http.HeaderValue)}
    (hperm : qs.Perm ps) (hnodup : (ps.map Prod.fst).Nodup) (n : http.HeaderName) :
    http.getAll (http.insertPairs http.emptyMap ps) n = Grouping.valuesOf n ps ∧
      http.getAll (http.appendPairs http.emptyMap qs) n = Grouping.valuesOf n ps := by
  have hvalues := Grouping.perm_valuesOf hperm n
  rw [http.getAll_insertPairs, http.getAll_appendPairs, http.getAll_emptyMap, List.nil_append]
  by_cases hn : ∃ p ∈ ps, p.1 = n
  · obtain ⟨p, hp, rfl⟩ := hn
    rw [Grouping.valuesOf_of_nodup hnodup hp] at hvalues ⊢
    exact ⟨rfl, List.perm_singleton.mp hvalues⟩
  · have hnil : Grouping.valuesOf n ps = [] :=
      Grouping.valuesOf_eq_nil_iff.mpr fun p hp heq => hn ⟨p, hp, heq⟩
    rw [hnil] at hvalues ⊢
    exact ⟨rfl, hvalues.eq_nil⟩

/-- Inserting delivers all values only when every name has at most one. -/
theorem nodup_of_getAll {ps : List (http.HeaderName × http.HeaderValue)}
    (h : ∀ n, http.getAll (http.insertPairs http.emptyMap ps) n = Grouping.valuesOf n ps) :
    (ps.map Prod.fst).Nodup := by
  rw [List.nodup_iff_count_le_one]
  intro n
  have hlen : (http.getAll (http.insertPairs http.emptyMap ps) n).length ≤ 1 := by
    rw [http.getAll_insertPairs, http.getAll_emptyMap]
    cases (Grouping.valuesOf n ps).getLast? with
    | none => exact Nat.zero_le 1
    | some v => exact le_refl 1
  rw [h n, Grouping.length_valuesOf] at hlen
  exact hlen

/-- **Repeated headers in the two modes.** Take headers a guest may send, rendered as
lines for the CGI mode and grouped by name for the lambda mode, the names spelled as they
are or in lower case, the groups in any order. Both modes deliver a response. They deliver
the same values under every name, namely all of them in order, exactly when no two headers
have the same name in lower case. -/
theorem repeatedHeaders_iff (http : Http) (unicode : Text.Unicode) (base64 : Base64.Codec)
    (headers : List (CgiHeader http)) (body : Str) (hbody : headers = [] → body = [])
    (spell : Str → Str) (hspell : spell = id ∨ spell = Text.toAsciiLowercase)
    (response : LambdaResponse)
    (hstatus : 100 ≤ response.statusCode.toNat ∧ response.statusCode.toNat ≤ 999)
    (hgroups : Grouping.IsGrouping response.headers.enumerate
      (headers.map fun h => (spell h.name, h.value)))
    (htext : response.isBase64Encoded = false) :
    ∃ c r, CgiResponse.fromStr http unicode (payload (headers.map .header) body) = .ok c ∧
      response.intoResponse http base64 = .ok r ∧
      ((∀ n, http.getAll c.headers n = http.getAll r.headers n ∧
          http.getAll c.headers n = Grouping.valuesOf n (headers.map CgiHeader.pair)) ↔
        headers.Pairwise fun a b =>
          Text.toAsciiLowercase a.name ≠ Text.toAsciiLowercase b.name) := by
  obtain ⟨c, hc, hcheaders⟩ := fromStr_headers unicode headers hbody
  obtain ⟨ps, hps, hperm⟩ := parsesTo_grouped hspell hgroups
  obtain ⟨status, hsome, -⟩ := http.exists_status hstatus
  have hdecodes : ∃ bytes, response.bodyBytes base64 = .ok bytes := by
    refine exists_bodyBytes_iff.mpr fun body _ hflag => ?_
    rw [htext] at hflag
    exact absurd hflag Bool.false_ne_true
  obtain ⟨bytes, hbytes⟩ := hdecodes
  refine ⟨c, ⟨status, http.appendPairs http.emptyMap ps, bytes⟩, hc,
    intoResponse_eq_ok_iff.mpr ⟨hsome, ⟨ps, hps, rfl⟩, hbytes⟩, ?_⟩
  rw [hcheaders, ← nodup_headerName_iff]
  constructor
  · intro h
    exact nodup_of_getAll fun n => (h n).2
  · intro hnodup n
    obtain ⟨hinsert, happend⟩ := getAll_of_nodup hperm hnodup n
    exact ⟨hinsert.trans happend.symm, hinsert⟩

/-! ### Two cookies -/

/-- The header `Set-Cookie: a`. -/
def cookieA : CgiHeader Http.reference where
  name := "Set-Cookie".toList
  value := "a".toList
  headerName := Http.setCookie
  headerValue := ⟨Utf8.encode "a".toList, rfl⟩
  name_eq := by decide
  value_eq := rfl
  not_status := by decide
  no_space c h := by
    obtain rfl : 'a' = c := Option.some.inj h
    rfl

/-- The header `Set-Cookie: b`. -/
def cookieB : CgiHeader Http.reference :=
  { cookieA with
    value := "b".toList
    headerValue := ⟨Utf8.encode "b".toList, rfl⟩
    value_eq := rfl
    no_space := fun c h => by
      obtain rfl : 'b' = c := Option.some.inj h
      rfl }

/-- One cookie and another header are delivered alike in both modes, although the hash map
enumerates them in another order than they were listed. -/
theorem oneCookie_delivered :
    ∃ c r, CgiResponse.fromStr Http.reference Text.Unicode.ascii
        "X-Powered-By: wgi\nSet-Cookie: a\n\n".toList = .ok c ∧
      LambdaResponse.intoResponse Http.reference Base64.standard
        ⟨200, HashMap.insertAll ∅ [("x-powered-by".toList, ["wgi".toList]),
          ("set-cookie".toList, ["a".toList])], none, false⟩ = .ok r ∧
      ∀ n, Http.reference.getAll c.headers n = Http.reference.getAll r.headers n := by
  obtain ⟨c, r, hc, hr, hiff⟩ := repeatedHeaders_iff Http.reference Text.Unicode.ascii
    Base64.standard [poweredBy, cookieA] [] (fun h => absurd h (List.cons_ne_nil _ _))
    Text.toAsciiLowercase (Or.inr rfl)
    ⟨200, HashMap.insertAll ∅ [("x-powered-by".toList, ["wgi".toList]),
      ("set-cookie".toList, ["a".toList])], none, false⟩
    (by decide) ⟨by decide, by decide, by decide⟩ rfl
  exact ⟨c, r, hc, hr, fun n => (hiff.mpr (by decide) n).1⟩

/-- **The CGI mode loses a cookie**: of two `Set-Cookie` lines only the last is delivered,
while the lambda mode delivers both. -/
theorem setCookie_twice :
    Grouping.IsGrouping [("Set-Cookie".toList, ["a".toList, "b".toList])]
      ([cookieA, cookieB].map fun h => (h.name, h.value)) ∧
    ∃ c r, CgiResponse.fromStr Http.reference Text.Unicode.ascii
        (payload [.header cookieA, .header cookieB] []) = .ok c ∧
      LambdaResponse.intoResponse Http.reference Base64.standard
        ⟨200, HashMap.insertAll ∅ [("Set-Cookie".toList, ["a".toList, "b".toList])], none,
          false⟩ = .ok r ∧
      Http.reference.getAll c.headers cookieA.headerName = [cookieB.headerValue] ∧
      Http.reference.getAll r.headers cookieA.headerName =
        [cookieA.headerValue, cookieB.headerValue] := by
  refine ⟨⟨by decide, by decide, by decide⟩, _, _,
    fromStr_payload Text.Unicode.ascii (List.cons_ne_nil _ _) [], rfl, ?_, ?_⟩
  · rfl
  · rfl

end Wgi
