import Wgi.JsmnJson
import Wgi.Server

/-!
# The Lambda Guest in C, from the Event to the Log

`lambda.c` copies its event into a buffer of 2048 bytes, prints it, tokenizes it with `jsmn.h`
into at most 128 tokens, and prints the strings and the primitives among them. In lambda mode the
standard output goes to the log. The guest never calls `lambda_send_response`.

The buffer is not cleared and the copy does not end it, so that what is printed as the event goes
on with whatever stands behind it in the memory, up to the first NUL.

## Main results

* `LambdaGuest.Silent.response`: a guest that never sends a response leaves none.
* `Json.leaves_tokens`: the leaves of a document are what its leaf tokens stand for.
* `lambdaExample_silent`: no request for `lambda.c` is ever answered.
* `lambdaExample_served`: what is logged for an event that is a JSON object.
-/

namespace Wgi

/-! ### Guests that never answer -/

section Silent

/-- A guest that never sends a response. -/
def LambdaGuest.Silent : LambdaGuest → Prop
  | .done => True
  | .trap => True
  | .load next => ∀ memory, (next memory).Silent
  | .call step next => (∀ buf bufLen, step ≠ .sendResponse buf bufLen) ∧
      ∀ value, (next value).Silent
  | .print _ next => next.Silent
  | .log _ next => next.Silent

variable {serde : SerdeJson} {wasmer : Wasmer}

/-- A step that sends no response keeps the one that is there. -/
theorem step_silent {env env' : Env} {step : GuestStep} {reply : GuestReply}
    (h : (guest serde wasmer).step env step = .ok (reply, env'))
    (hstep : ∀ buf bufLen, step ≠ .sendResponse buf bufLen) :
    env'.state.response = env.state.response := by
  refine step_not_accepted h fun haccepted => ?_
  obtain ⟨buf, bufLen, -, -, hsend, -⟩ := step_accepted h haccepted
  exact hstep buf bufLen hsend

/-- **A silent guest** leaves the response as it was. -/
theorem LambdaGuest.Silent.response {guest : LambdaGuest} (h : guest.Silent) (env : Env) :
    (guest.behave serde wasmer env).env.state.response = env.state.response := by
  induction guest generalizing env with
  | done => rfl
  | trap => rfl
  | load next ih => exact ih _ (h _) env
  | call step next ih =>
      rw [behave]
      cases hstep : (Wgi.guest serde wasmer).step env step with
      | error panic => rfl
      | ok result =>
          obtain ⟨reply, env'⟩ := result
          exact (ih _ (h.2 _) env').trans (step_silent hstep h.1)
  | print buf next ih => exact ih h env
  | log buf next ih => exact ih h env

/-- A request for a silent guest is never answered. -/
theorem servedAlone_of_silent {http : Http} {Hash Module : Type}
    {B : Backend http Hash Module} {a : Arrival http} {call : Lambda.Call} {module : Module}
    {memory : Bytes} {guest : LambdaGuest} (hrouted : routed a.request.uri.path = true)
    (hcall : Lambda.prepare http B.base64 B.form B.hyper a.fs a.request = .ok call)
    (hbinary : B.compiler.fromBinary call.wasm = .ok module)
    (hguest : B.lambda module = .ok (memory, guest)) (hsilent : guest.Silent)
    {b : LambdaBehaviour}
    (hb : guest.behave B.serde B.wasmer ((Env.new B.serde call.event).init memory) = b) :
    ∃ panic, servedAlone B .lambda a =
        ⟨.closed panic, LogForwarder.messagesOf b.out, LogForwarder.messagesOf b.err⟩ ∧
      (b.ending = .returned → panic = .unwrap .noResponse) := by
  have hmodule : (App.module B.compiler .none call.wasm fun _ => none).result = .ok module := by
    rw [module_alone, hbinary]
    rfl
  have hnone : b.env.state.response = none := by
    rw [← hb, hsilent.response]
    rfl
  rw [servedAlone, serve, if_pos hrouted, serveLambda]
  simp only [hcall, runLamba_eq hmodule hguest hb, hnone]
  cases b.ending with
  | returned => exact ⟨_, rfl, fun _ => rfl⟩
  | trapped => exact ⟨_, rfl, fun h => by cases h⟩
  | panicked panic => exact ⟨_, rfl, fun h => by cases h⟩

end Silent

/-! ### The leaves of a document -/

namespace Jsmn

mutual

/-- The strings and primitives of a value, in their order, strings without their quotes. -/
def Json.leaves : Json → List Bytes
  | .primitive atom => [atom.text]
  | .string quoted => [quoted.body]
  | .array _ elems => elems.leaves
  | .object _ members => members.leaves

def Elems.leaves : Elems → List Bytes
  | .nil => []
  | .cons _ value _ rest => value.leaves ++ rest.leaves

def Members.leaves : Members → List Bytes
  | .nil => []
  | .cons _ key _ _ json _ rest => key.body :: (json.leaves ++ rest.leaves)

end

/-- The token of a string or a primitive. -/
def Token.isLeaf (token : Token) : Bool :=
  token.type == .string || token.type == .primitive

/-- What `%.*s` prints of the characters at a place: as many as the precision says, unless it is
negative, and none from the first NUL on. -/
def precise (text : Bytes) (precision : ℤ) : Bytes :=
  (if precision < 0 then text else text.take precision.toNat).takeWhile (· != 0)

/-- What is printed for a token of a text. -/
def leafText (js : Bytes) (token : Token) : Bytes :=
  precise (js.drop token.start.toNat) (token.stop - token.start)

/-- A text without a NUL is printed to its length. -/
theorem precise_append {t : Bytes} (h : 0 ∉ t) (tail : Bytes) :
    precise (t ++ tail) t.length = t := by
  rw [precise, if_neg (by omega), Int.toNat_natCast, List.take_left, List.takeWhile_eq_self_iff]
  intro c hc
  exact bne_iff_ne.mpr fun h0 => h (h0 ▸ hc)

theorem Atom.notMem (atom : Atom) : 0 ∉ atom.text := by
  intro hmem
  exact absurd (List.all_eq_true.mp atom.chars 0 hmem) (by decide)

theorem Space.notMem (space : Space) : 0 ∉ space.text := by
  intro hmem
  exact absurd (List.all_eq_true.mp space.blank 0 hmem) (by decide)

theorem Quoted.notMem (quoted : Quoted) : 0 ∉ quoted.text := by
  have hbody := quoted.notMem_body
  simp [Quoted.text, hbody]

mutual

/-- No text of a document has a NUL. -/
theorem Json.notMem (j : Json) : 0 ∉ j.text := by
  cases j with
  | primitive atom => exact atom.notMem
  | string quoted => exact quoted.notMem
  | array inner elems => simp [Json.text, inner.notMem, elems.notMem [] List.not_mem_nil]
  | object inner members => simp [Json.text, inner.notMem, members.notMem [] List.not_mem_nil]

theorem Elems.notMem (elems : Elems) (sep : Bytes) (hsep : 0 ∉ sep) :
    0 ∉ elems.text sep := by
  cases elems with
  | nil => exact List.not_mem_nil
  | cons before value after rest =>
      simp [Elems.text, hsep, before.notMem, value.notMem, after.notMem,
        rest.notMem [44] (by decide)]

theorem Members.notMem (members : Members) (sep : Bytes) (hsep : 0 ∉ sep) :
    0 ∉ members.text sep := by
  cases members with
  | nil => exact List.not_mem_nil
  | cons before key colon value json after rest =>
      simp [Members.text, hsep, before.notMem, key.notMem, colon.notMem, value.notMem,
        json.notMem, after.notMem, rest.notMem [44] (by decide)]

end

/-- The token of a string stands for its characters. -/
theorem Quoted.leafText_token (quoted : Quoted) {js tail : Bytes} {pos : ℕ} (size : ℕ)
    (h : js.drop pos = quoted.text ++ tail) :
    leafText js (quoted.token pos size) = quoted.body := by
  have hbody : js.drop (pos + 1) = quoted.body ++ ([34] ++ tail) := by
    rw [← List.drop_drop, h, Quoted.text]
    simp
  have hstart : (quoted.token pos size).start.toNat = pos + 1 := by
    simp only [Quoted.token]
    omega
  have hlen : (quoted.token pos size).stop - (quoted.token pos size).start =
      (quoted.body.length : ℤ) := by
    simp only [Quoted.token]
    omega
  rw [leafText, hstart, hlen, hbody]
  exact precise_append quoted.notMem_body _

mutual

/-- **The leaves of a value** are what its leaf tokens stand for. -/
theorem Json.leaves_tokens (j : Json) {js tail : Bytes} {pos : ℕ}
    (h : js.drop pos = j.text ++ tail) :
    ((j.tokens pos).filter Token.isLeaf).map (leafText js) = j.leaves := by
  cases j with
  | primitive atom =>
      have hleaf : leafText js ⟨.primitive, pos, pos + atom.text.length, 0⟩ = atom.text := by
        have hlen : ((pos : ℤ) + atom.text.length) - pos = atom.text.length := by omega
        rw [leafText]
        simp only [Int.toNat_natCast, hlen, h, Json.text]
        exact precise_append atom.notMem tail
      rw [Json.tokens, Json.leaves]
      simp [Token.isLeaf, hleaf]
  | string quoted =>
      rw [Json.tokens, Json.leaves, ← quoted.leafText_token 0 h]
      rfl
  | array inner elems =>
      rw [Json.text] at h
      have hinner : js.drop (pos + 1) = inner.text ++ (elems.text [] ++ ([93] ++ tail)) := by
        rw [← List.drop_drop, h]
        simp
      rw [Json.tokens, Json.leaves, ← elems.leaves_tokens (drop_of_append hinner)]
      rfl
  | object inner members =>
      rw [Json.text] at h
      have hinner : js.drop (pos + 1) = inner.text ++ (members.text [] ++ ([125] ++ tail)) := by
        rw [← List.drop_drop, h]
        simp
      rw [Json.tokens, Json.leaves, ← members.leaves_tokens (drop_of_append hinner)]
      rfl

theorem Elems.leaves_tokens (elems : Elems) {js sep tail : Bytes} {pos : ℕ}
    (h : js.drop pos = elems.text sep ++ tail) :
    ((elems.tokens sep pos).filter Token.isLeaf).map (leafText js) = elems.leaves := by
  cases elems with
  | nil => rfl
  | cons before value after rest =>
      simp only [Elems.text, List.append_assoc] at h
      have hvalue := drop_of_append (drop_of_append h)
      have hrest := drop_of_append (drop_of_append hvalue)
      rw [Elems.tokens, Elems.leaves, List.filter_append, List.map_append,
        value.leaves_tokens hvalue, rest.leaves_tokens hrest]

theorem Members.leaves_tokens (members : Members) {js sep tail : Bytes} {pos : ℕ}
    (h : js.drop pos = members.text sep ++ tail) :
    ((members.tokens sep pos).filter Token.isLeaf).map (leafText js) = members.leaves := by
  cases members with
  | nil => rfl
  | cons before key colon value json after rest =>
      simp only [Members.text, List.append_assoc, List.cons_append] at h
      have hkey := drop_of_append (drop_of_append h)
      have hcolon := drop_of_append (drop_of_append hkey)
      have hjson := drop_of_append (drop_of_append (t := [58]) hcolon)
      rw [List.length_singleton] at hjson
      have hrest := drop_of_append (drop_of_append hjson)
      rw [Members.tokens, Members.leaves, List.filter_cons_of_pos rfl, List.map_cons,
        key.leafText_token 1 hkey, List.filter_append, List.map_append, json.leaves_tokens hjson,
        rest.leaves_tokens hrest]

end

end Jsmn

/-! ### `lambda.c` -/

namespace LambdaExample

open Jsmn

/-- What `%d` prints of a `uint32_t`. -/
def decimal (n : UInt32) : Bytes :=
  Utf8.encode (toString n.toInt32.toInt).toList

/-- What `%s` prints: the characters up to the first NUL, which has to be in the memory. -/
def cString (memory : Bytes) (ptr : ℕ) : Option Bytes :=
  if 0 ∈ memory.drop ptr then some ((memory.drop ptr).takeWhile (· != 0)) else none

/-- The loop over the tokens. -/
def printLeaves (memory : Bytes) (buf : UInt32) : List Token → LambdaGuest
  | [] => .done
  | token :: tokens =>
      if token.isLeaf then
        .print (leafText (memory.drop buf.toNat) token ++ [32]) (printLeaves memory buf tokens)
      else printLeaves memory buf tokens

/-- `main`, behind `jsmn_parse`. -/
def readTokens (memory : Bytes) (buf : UInt32) (r : Except Err ℕ) (tokens : List Token) :
    LambdaGuest :=
  match r with
  | .error .nomem => .print (Utf8.encode "No memory\n".toList) .done
  | .error _ => .print (Utf8.encode "Object expected\n".toList) .done
  | .ok count =>
      if count < 1 ∨ (tokens.head?.map Token.type) ≠ some .object then
        .print (Utf8.encode "Object expected\n".toList) .done
      else printLeaves memory buf ((tokens.take count).drop 1)

/-- `main`, behind `lambda_event`. -/
def showEvent (buf : UInt32) (t : Vector Token 128) (len : UInt32) (memory : Bytes) :
    LambdaGuest :=
  match cString memory buf.toNat with
  | none => .trap
  | some text =>
      .print (Utf8.encode "event: ".toList ++ text ++ Utf8.encode "!\n".toList) <|
        match parse (rangeOf memory buf len) t.toList.length (init (some t.toList)) with
        | .error _ => .trap
        | .ok (r, parser) => readTokens memory buf r (parser.tokens.getD [])

/-- `main`, with the address of its buffer and what stands in its token array before it is
filled. -/
def main (buf : UInt32) (t : Vector Token 128) : LambdaGuest :=
  .call .eventSize fun size =>
    .print (Utf8.encode "bufsize: ".toList ++ decimal size ++ [newline]) <|
      .call (.event buf 2048) fun len => .load (showEvent buf t len)

/-- The loop sends nothing. -/
theorem printLeaves_silent (memory : Bytes) (buf : UInt32) (tokens : List Token) :
    (printLeaves memory buf tokens).Silent := by
  induction tokens with
  | nil => exact trivial
  | cons token tokens ih =>
      rw [printLeaves]
      split_ifs
      · exact ih
      · exact ih

theorem readTokens_silent (memory : Bytes) (buf : UInt32) (r : Except Err ℕ)
    (tokens : List Token) : (readTokens memory buf r tokens).Silent := by
  rw [readTokens.eq_def]
  split
  · exact trivial
  · exact trivial
  · split_ifs
    · exact trivial
    · exact printLeaves_silent memory buf _

theorem showEvent_silent (buf : UInt32) (t : Vector Token 128) (len : UInt32) (memory : Bytes) :
    (showEvent buf t len memory).Silent := by
  rw [showEvent]
  split
  · exact trivial
  · rw [LambdaGuest.Silent]
    split
    · exact trivial
    · exact readTokens_silent _ _ _ _

/-- The program sends nothing. -/
theorem main_silent (buf : UInt32) (t : Vector Token 128) : (main buf t).Silent :=
  ⟨nofun, fun _ => ⟨nofun, showEvent_silent buf t⟩⟩

section Served

variable {http : Http} {Hash Module : Type}

/-- **`lambda.c` never answers**: whatever the request, its headers and its body are, and
whatever stands in the memory of the guest, the connection is closed. -/
theorem lambdaExample_silent (B : Backend http Hash Module) (a : Arrival http) (buf : UInt32)
    (t : Vector Token 128)
    (hguest : ∀ module, B.compiler.fromBinary (scanPath a.fs a.request.uri.path).wasm = .ok module →
      ∃ memory, B.lambda module = .ok (memory, main buf t)) :
    ∀ response, (servedAlone B .lambda a).reply ≠ .lambda response := by
  intro response
  by_cases hrouted : routed a.request.uri.path = true
  · cases hcall : Lambda.prepare http B.base64 B.form B.hyper a.fs a.request with
    | error panic =>
        rw [servedAlone, serve, if_pos hrouted, serveLambda]
        simp only [hcall]
        exact fun h => by cases h
    | ok call =>
        have hwasm := (Lambda.wasm_of_prepare hcall).1
        cases hbinary : B.compiler.fromBinary call.wasm with
        | error err =>
            have hmodule := module_alone B.compiler call.wasm
            rw [hbinary] at hmodule
            rw [servedAlone, serve, if_pos hrouted, serveLambda]
            simp only [hcall, App.runLamba, hmodule, Except.mapError]
            exact fun h => by cases h
        | ok module =>
            obtain ⟨memory, hstart⟩ := hguest module (hwasm ▸ hbinary)
            obtain ⟨panic, hserved, -⟩ :=
              servedAlone_of_silent hrouted hcall hbinary hstart (main_silent buf t) rfl
            rw [hserved]
            exact fun h => by cases h
  · rw [servedAlone, serve, if_neg hrouted]
    exact fun h => by cases h

/-- What the loop prints. -/
theorem behave_printLeaves (serde : SerdeJson) (wasmer : Wasmer) (memory : Bytes) (buf : UInt32)
    (tokens : List Token) (env : Env) :
    (printLeaves memory buf tokens).behave serde wasmer env = ⟨.returned, env, [],
      ((tokens.filter Token.isLeaf).map (leafText (memory.drop buf.toNat))).flatMap (· ++ [32]),
      [], []⟩ := by
  induction tokens with
  | nil => rfl
  | cons token tokens ih =>
      rw [printLeaves]
      by_cases hleaf : token.isLeaf = true
      · rw [if_pos hleaf, LambdaGuest.behave, ih, List.filter_cons_of_pos hleaf]
        rfl
      · rw [if_neg hleaf, ih, List.filter_cons_of_neg hleaf]

/-- The memory from the address of cells that were set. -/
theorem drop_setCells {memory : Bytes} {buf : UInt32} (h : buf.toNat ≤ memory.length)
    (cells : Bytes) :
    (setCells memory buf cells).drop buf.toNat =
      cells ++ memory.drop (buf.toNat + cells.length) := by
  have hbefore : (memory.take buf.toNat).length = buf.toNat := by
    rw [List.length_take]
    omega
  rw [setCells, List.append_assoc, List.drop_left' hbefore]

/-- `jsmn_parse` on the text of an object. -/
theorem parse_object (inner : Space) (members : Members) (t : Vector Token 128)
    (h : ((Json.object inner members).tokens 0).length ≤ 128) :
    ∃ parser, parse (Json.object inner members).text t.toList.length (init (some t.toList)) =
        .ok (.ok ((Json.object inner members).tokens 0).length, parser) ∧
      ∃ rest, parser.tokens = some ((Json.object inner members).tokens 0 ++ rest) := by
  have hroom : ((Json.object inner members).tokens 0).length ≤ t.toList.length := by
    rw [Vector.length_toList]
    exact h
  have htokenize := tokenize_json ⟨[], rfl⟩ (Json.object inner members) ⟨[], rfl⟩ hroom
  simp only [List.nil_append, List.append_nil, List.length_nil] at htokenize
  have hparse := parse_array (s := ⟨0, [], none⟩) (fun i hi => absurd hi (by simp))
    (Json.object inner members).text (Nat.zero_le t.toList.length)
  rw [htokenize] at hparse
  exact ⟨_, hparse, _, rfl⟩

/-- What is printed of an event that is an object. -/
theorem behave_showEvent (serde : SerdeJson) (wasmer : Wasmer) {memory after : Bytes}
    {buf len : UInt32} (t : Vector Token 128) (env : Env) {inner : Space} {members : Members}
    (hmemory : memory.drop buf.toNat = (Json.object inner members).text ++ after)
    (hlen : len.toNat = (Json.object inner members).text.length) (hnul : 0 ∈ after)
    (htokens : ((Json.object inner members).tokens 0).length ≤ 128) :
    (showEvent buf t len memory).behave serde wasmer env = ⟨.returned, env, [],
      Utf8.encode "event: ".toList ++
        ((Json.object inner members).text ++ after.takeWhile (· != 0)) ++
        Utf8.encode "!\n".toList ++ members.leaves.flatMap (· ++ [32]), [], []⟩ := by
  have hstring : cString memory buf.toNat =
      some ((Json.object inner members).text ++ after.takeWhile (· != 0)) := by
    have hpass : ∀ c ∈ (Json.object inner members).text, (c != 0) = true :=
      fun c hc => bne_iff_ne.mpr fun h0 => (Json.object inner members).notMem (h0 ▸ hc)
    rw [cString, hmemory, if_pos (List.mem_append_right _ hnul),
      List.takeWhile_append_of_pos hpass]
  have hrange : rangeOf memory buf len = (Json.object inner members).text := by
    rw [rangeOf, hmemory, hlen, List.take_left]
  have hmembers : (memory.drop buf.toNat).drop 0 =
      (Json.object inner members).text ++ after := hmemory
  have hleaves := (Json.object inner members).leaves_tokens hmembers
  obtain ⟨parser, hparse, rest, hparser⟩ := parse_object inner members t htokens
  -- the first token is that of the object, and the loop is over the others
  have hread : readTokens memory buf (.ok ((Json.object inner members).tokens 0).length)
      (parser.tokens.getD []) =
        printLeaves memory buf (((Json.object inner members).tokens 0).drop 1) := by
    rw [hparser, Option.getD_some, readTokens, List.take_left, if_neg]
    rw [Json.tokens]
    simp
  have hfilter : (((Json.object inner members).tokens 0).drop 1).filter Token.isLeaf =
      ((Json.object inner members).tokens 0).filter Token.isLeaf := by
    rw [Json.tokens]
    rfl
  rw [showEvent, hstring]
  simp only [hrange, hparse, LambdaGuest.behave, hread, behave_printLeaves, hfilter, hleaves]
  rfl

/-- **What `lambda.c` logs**: for every event that is a JSON object of at most 2048 bytes and 128
tokens, the log has the size of the event, its text with what stands behind it in the memory up
to the first NUL, and the strings and primitives of the object in their order, keys among them.
No response is sent. -/
theorem lambdaExample_served (B : Backend http Hash Module) (a : Arrival http)
    (call : Lambda.Call) (module : Module) (memory : Bytes) (buf : UInt32) (t : Vector Token 128)
    (inner : Space) (members : Members) (hrouted : routed a.request.uri.path = true)
    (hcall : Lambda.prepare http B.base64 B.form B.hyper a.fs a.request = .ok call)
    (hbinary : B.compiler.fromBinary call.wasm = .ok module)
    (hguest : B.lambda module = .ok (memory, main buf t))
    (hevent : B.serde.toVec call.event = (Json.object inner members).text)
    (hsize : (Json.object inner members).text.length ≤ 2048)
    (htokens : ((Json.object inner members).tokens 0).length ≤ 128)
    (hin : B.wasmer.inBounds memory.length buf 2048 = true)
    (hnul : 0 ∈ memory.drop (buf.toNat + (Json.object inner members).text.length)) :
    servedAlone B .lambda a = ⟨.closed (.unwrap .noResponse), LogForwarder.messagesOf
      (Utf8.encode "bufsize: ".toList ++
        decimal (UInt32.ofNat (Json.object inner members).text.length) ++ [newline] ++
        (Utf8.encode "event: ".toList ++ ((Json.object inner members).text ++
          (memory.drop (buf.toNat + (Json.object inner members).text.length)).takeWhile (· != 0)) ++
          Utf8.encode "!\n".toList ++ members.leaves.flatMap (· ++ [32]))), []⟩ := by
  set js := (Json.object inner members).text with hjs
  set env := (Env.new B.serde call.event).init memory with henv
  have hrequest : env.state.request = js := hevent
  have hle := B.wasmer.le_of_inBounds hin
  have h2048 : (2048 : UInt32).toNat = 2048 := rfl
  have hsmall : js.length < UInt32.size := Nat.lt_of_le_of_lt hsize (by decide)
  have hstepSize : (guest B.serde B.wasmer).step env .eventSize =
      .ok (.size (UInt32.ofNat js.length), env) := by
    rw [step_eventSize, eventSize_eq (hrequest ▸ hsmall), hrequest]
    rfl
  have hstepEvent : (guest B.serde B.wasmer).step env (.event buf 2048) =
      .ok (.copied (UInt32.ofNat js.length),
        { env with memory := some (setCells memory buf js) }) := by
    rw [step_event, event_eq rfl hin, hrequest, h2048, Nat.min_eq_right hsize,
      List.take_of_length_le hsize]
    rfl
  have hlen : (UInt32.ofNat js.length).toNat = js.length := UInt32.toNat_ofNat_of_lt' hsmall
  have hdrop : (setCells memory buf js).drop buf.toNat =
      js ++ memory.drop (buf.toNat + js.length) := drop_setCells (by omega) js
  have hshow := behave_showEvent B.serde B.wasmer t
    { env with memory := some (setCells memory buf js) } hdrop hlen hnul htokens
  rw [← hjs] at hshow
  have hbehave : (main buf t).behave B.serde B.wasmer env =
      ⟨.returned, { env with memory := some (setCells memory buf js) },
        [.eventSize, .event buf 2048],
        Utf8.encode "bufsize: ".toList ++ decimal (UInt32.ofNat js.length) ++ [newline] ++
          (Utf8.encode "event: ".toList ++ (js ++
            (memory.drop (buf.toNat + js.length)).takeWhile (· != 0)) ++
            Utf8.encode "!\n".toList ++ members.leaves.flatMap (· ++ [32])), [], []⟩ := by
    simp only [main, LambdaGuest.behave, hstepSize, hstepEvent, GuestReply.value,
      Option.getD_some, hshow]
    rfl
  obtain ⟨panic, hserved, hpanic⟩ :=
    servedAlone_of_silent hrouted hcall hbinary hguest (main_silent buf t) hbehave
  rw [hserved, hpanic rfl]
  rfl

end Served

/-! ### A request for `/a` -/

/-- No white space. -/
def blank : Space := ⟨[], rfl⟩

/-- A member without white space. -/
def member (key : Quoted) (json : Json) (rest : Members) : Members :=
  .cons blank key blank blank json blank rest

/-- A string without escapes. -/
def quoted (s : String)
    (h : stringSpan .plain (Utf8.encode s.toList ++ [34]) = .ok (Utf8.encode s.toList).length) :
    Quoted :=
  ⟨Utf8.encode s.toList, h⟩

/-- A word, by its first character and the others. -/
def atom (first : UInt8) (others : Bytes) (hfirst : first ≠ 123 ∧ first ≠ 91 ∧ first ≠ 34)
    (hchars : (first :: others).all isPrimitiveChar = true) : Json :=
  .primitive
    ⟨first :: others, List.cons_ne_nil _ _, fun _ hc => Option.some.inj hc ▸ hfirst, hchars⟩

/-- The word `null`. -/
def null : Json := atom 110 [117, 108, 108] (by decide) rfl

/-- The word `false`. -/
def no : Json := atom 102 [97, 108, 115, 101] (by decide) rfl

/-- The members of the event of a `GET` request for `/a` without headers. -/
def plainMembers : Members :=
  member (quoted "resource" rfl) (.string (quoted "/a" rfl)) <|
  member (quoted "path" rfl) (.string (quoted "/a" rfl)) <|
  member (quoted "httpMethod" rfl) (.string (quoted "GET" rfl)) <|
  member (quoted "headers" rfl) (.object blank .nil) <|
  member (quoted "queryStringParameters" rfl) (.object blank .nil) <|
  member (quoted "pathParameters" rfl) null <|
  member (quoted "stageVariables" rfl) null <|
  member (quoted "body" rfl) (.string (quoted "" rfl)) <|
  member (quoted "isBase64Encoded" rfl) no .nil

/-- What `serde_json` makes of that event. -/
def plainText : Bytes :=
  Utf8.encode ("\x7b\"resource\":\"/a\",\"path\":\"/a\",\"httpMethod\":\"GET\",".toList ++
    "\"headers\":\x7b\x7d,\"queryStringParameters\":\x7b\x7d,\"pathParameters\":null,".toList ++
    "\"stageVariables\":null,\"body\":\"\",\"isBase64Encoded\":false\x7d".toList)

theorem plainText_eq : plainText = (Json.object blank plainMembers).text := by
  decide +kernel

/-- A token array that was never used. -/
def freshTokens : Vector Token 128 := Vector.replicate 128 ⟨.undefined, 0, 0, 0⟩

/-- A memory that was never used, but for one byte behind the event. -/
def freshMemory : Bytes :=
  List.replicate plainText.length 0 ++ 120 :: List.replicate 4096 0

/-- A server for `lambda.c`. -/
def server : Backend Http.reference Bytes Bytes :=
  { Backend.running (fun _ => .done) (freshMemory, main 0 freshTokens) with
    serde := { SerdeJson.sample with toVec := fun _ => plainText } }

/-- The guest runs for a request of `/a` and does not answer it. -/
theorem lambdaExample_silent_plain :
    server.lambda [] = .ok (freshMemory, main 0 freshTokens) ∧
      ∀ response, (servedAlone server .lambda (arrivalAt "/a".toList)).reply ≠ .lambda response :=
  ⟨rfl, lambdaExample_silent server (arrivalAt "/a".toList) 0 freshTokens
    fun _ _ => ⟨freshMemory, rfl⟩⟩

theorem drop_freshMemory :
    freshMemory.drop ((0 : UInt32).toNat + plainText.length) = 120 :: List.replicate 4096 0 := by
  have hzero : (0 : UInt32).toNat = 0 := rfl
  rw [hzero, Nat.zero_add, freshMemory]
  exact List.drop_left' List.length_replicate

theorem length_freshMemory : 2048 ≤ freshMemory.length := by
  rw [freshMemory, List.length_append, List.length_cons, List.length_replicate,
    List.length_replicate]
  omega

/-- What is logged for it: the size, the text with the byte behind it, and the leaves. -/
theorem lambdaExample_served_plain :
    servedAlone server .lambda (arrivalAt "/a".toList) = ⟨.closed (.unwrap .noResponse),
      LogForwarder.messagesOf (Utf8.encode "bufsize: ".toList ++
        decimal (UInt32.ofNat plainText.length) ++ [newline] ++
        (Utf8.encode "event: ".toList ++ (plainText ++ [120]) ++ Utf8.encode "!\n".toList ++
          plainMembers.leaves.flatMap (· ++ [32]))), []⟩ := by
  have hserved := lambdaExample_served server (arrivalAt "/a".toList) _ _ freshMemory 0
    freshTokens blank plainMembers rfl rfl rfl rfl plainText_eq (by decide +kernel)
    (by decide +kernel) ?_ ?_
  · rw [← plainText_eq, drop_freshMemory] at hserved
    exact hserved
  · have hle := length_freshMemory
    simp only [server, Backend.running, Wasmer.reference, Bool.and_eq_true, decide_eq_true_eq]
    exact ⟨hle, Nat.lt_of_lt_of_le (by decide) hle⟩
  · rw [← plainText_eq, drop_freshMemory]
    exact List.mem_cons_of_mem _ (List.mem_replicate.mpr ⟨by decide, rfl⟩)

end LambdaExample

end Wgi
