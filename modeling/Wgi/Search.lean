import Mathlib.Data.List.TakeWhile
import Wgi.PathSplits

/-!
# The Search for the Script File

Both handlers walk over the candidates of the request path, open each one and read it to
its end into one buffer `wasm`, and stop at the first candidate for which both succeed.
The buffer is created before the loop and is not cleared between candidates, so a read
that fails part way leaves the bytes it had already appended.

The two loops differ in what they remember: the CGI handler keeps the script name and the
path info of the candidate it found, the lambda handler keeps the last error.

## Main results

* `Cgi.search_eq` and `Lambda.search_eq`: both loops are projections of one abstract
  `scan` over the candidates.
* `scan_hit` and `scan_miss`: the scan stops at the first readable candidate, and its
  buffer holds what every candidate before left behind, followed by that file.
-/

namespace Wgi

/-- What opening a path and reading it to the end does: the open fails, the read fails
after some bytes were appended to the buffer, or the whole content is appended. -/
inductive FileRead where
  | openErr (err : IoError)
  | readErr (appended : Bytes) (err : IoError)
  | ok (content : Bytes)
  deriving DecidableEq, Repr

/-- The file system as the server sees it during one request. A request opens each of its
candidates at most once, so a function of the path is enough. -/
abbrev FileSystem := Str → FileRead

/-- `File::open(path).and_then(|mut file| file.read_to_end(&mut wasm))`: the result, and
the buffer afterwards. -/
def openAndRead (fs : FileSystem) (path : Str) (wasm : Bytes) : Except IoError ℕ × Bytes :=
  match fs path with
  | .openErr err => (.error err, wasm)
  | .readErr appended err => (.error err, wasm ++ appended)
  | .ok content => (.ok content.length, wasm ++ content)

/-! ### The two loops -/

/-- The variables of the search loop of `cgi::handler`. -/
structure Cgi.Search where
  wasm : Bytes
  scriptName : Option Str
  pathInfo : Option Str
  deriving DecidableEq, Repr

/-- The search loop of `cgi::handler`. -/
def Cgi.searchLoop (fs : FileSystem) :
    List (Except Panic (Str × Str)) → Cgi.Search → Except Panic Cgi.Search
  | [], s => .ok s
  | .error e :: _, _ => .error e
  | .ok (path, rest) :: items, s =>
      match openAndRead fs path s.wasm with
      | (.ok _, wasm) => .ok ⟨wasm, some path, some rest⟩
      | (.error _, wasm) => Cgi.searchLoop fs items { s with wasm }

/-- The search of `cgi::handler`, from the empty buffer. -/
def Cgi.search (fs : FileSystem) (path : Str) : Except Panic Cgi.Search := do
  let items ← Cgi.iterPathSplits path
  Cgi.searchLoop fs items ⟨[], none, none⟩

/-- The variables of the search loop of `lambda::handler`. -/
structure Lambda.Search where
  wasm : Bytes
  lastErr : Option IoError
  deriving DecidableEq, Repr

/-- The search loop of `lambda::handler`. -/
def Lambda.searchLoop (fs : FileSystem) :
    List (Except Panic (Str × Str)) → Lambda.Search → Except Panic Lambda.Search
  | [], s => .ok s
  | .error e :: _, _ => .error e
  | .ok (path, _) :: items, s =>
      match openAndRead fs path s.wasm with
      | (.ok _, wasm) => .ok ⟨wasm, none⟩
      | (.error err, wasm) => Lambda.searchLoop fs items ⟨wasm, some err⟩

/-- The search of `lambda::handler`, from the empty buffer. -/
def Lambda.search (fs : FileSystem) (path : Str) : Except Panic Lambda.Search := do
  let items ← Lambda.iterPathSplits path
  Lambda.searchLoop fs items ⟨[], none⟩

/-! ### The abstract scan -/

/-- A path that opens and reads to its end. -/
def readable (fs : FileSystem) (path : Str) : Bool :=
  match fs path with
  | .ok _ => true
  | _ => false

theorem readable_iff {fs : FileSystem} {path : Str} :
    readable fs path = true ↔ ∃ content, fs path = .ok content := by
  rw [readable]
  cases fs path <;> simp

/-- What a candidate that is not readable leaves in the buffer. -/
def residue (fs : FileSystem) (path : Str) : Bytes :=
  match fs path with
  | .readErr appended _ => appended
  | _ => []

/-- The outcome of walking over a list of candidates. -/
structure Scan where
  wasm : Bytes
  found : Option (Str × Str)
  lastErr : Option IoError

/-- The walk both loops make: stop at the first readable candidate. -/
def scan (fs : FileSystem) : List (Str × Str) → Bytes → Option IoError → Scan
  | [], wasm, lastErr => ⟨wasm, none, lastErr⟩
  | (path, rest) :: items, wasm, _ =>
      match fs path with
      | .ok content => ⟨wasm ++ content, some (path, rest), none⟩
      | .openErr err => scan fs items wasm (some err)
      | .readErr appended err => scan fs items (wasm ++ appended) (some err)

theorem Cgi.searchLoop_eq (fs : FileSystem) (items : List (Str × Str)) (wasm : Bytes)
    (lastErr : Option IoError) :
    Cgi.searchLoop fs (items.map .ok) ⟨wasm, none, none⟩ =
      .ok ⟨(scan fs items wasm lastErr).wasm,
        (scan fs items wasm lastErr).found.map Prod.fst,
        (scan fs items wasm lastErr).found.map Prod.snd⟩ := by
  induction items generalizing wasm lastErr with
  | nil => rfl
  | cons item items ih =>
      obtain ⟨path, rest⟩ := item
      rw [List.map_cons, Cgi.searchLoop, openAndRead, scan]
      cases fs path with
      | openErr err => exact ih wasm (some err)
      | readErr appended err => exact ih (wasm ++ appended) (some err)
      | ok content => rfl

theorem Lambda.searchLoop_eq (fs : FileSystem) (items : List (Str × Str)) (wasm : Bytes)
    (lastErr : Option IoError) :
    Lambda.searchLoop fs (items.map .ok) ⟨wasm, lastErr⟩ =
      .ok ⟨(scan fs items wasm lastErr).wasm, (scan fs items wasm lastErr).lastErr⟩ := by
  induction items generalizing wasm lastErr with
  | nil => rfl
  | cons item items ih =>
      obtain ⟨path, rest⟩ := item
      rw [List.map_cons, Lambda.searchLoop, openAndRead, scan]
      cases fs path with
      | openErr err => exact ih wasm (some err)
      | readErr appended err => exact ih (wasm ++ appended) (some err)
      | ok content => rfl

/-- The scan of the candidates of a request path. -/
def scanPath (fs : FileSystem) (path : Str) : Scan :=
  scan fs (candidates path) [] none

/-- The CGI search never panics; it keeps what the scan found. -/
theorem Cgi.search_eq (fs : FileSystem) (path : Str) :
    Cgi.search fs path = .ok ⟨(scanPath fs path).wasm, (scanPath fs path).found.map Prod.fst,
      (scanPath fs path).found.map Prod.snd⟩ := by
  rw [Cgi.search, Cgi.iterPathSplits, iterPathSplits_eq]
  exact Cgi.searchLoop_eq fs (candidates path) [] none

/-- The lambda search never panics; it keeps the last error of the scan. -/
theorem Lambda.search_eq (fs : FileSystem) (path : Str) :
    Lambda.search fs path = .ok ⟨(scanPath fs path).wasm, (scanPath fs path).lastErr⟩ := by
  rw [Lambda.search, Lambda.iterPathSplits, iterPathSplits_eq]
  exact Lambda.searchLoop_eq fs (candidates path) [] none

/-! ### Where the scan stops -/

/-- Passing over an unreadable candidate keeps its residue and its error. -/
theorem scan_cons_of_not_readable {fs : FileSystem} {item : Str × Str}
    (h : readable fs item.1 = false) (items : List (Str × Str)) (wasm : Bytes)
    (lastErr : Option IoError) :
    ∃ err, scan fs (item :: items) wasm lastErr =
      scan fs items (wasm ++ residue fs item.1) (some err) := by
  obtain ⟨path, rest⟩ := item
  rw [readable] at h
  rw [scan, residue]
  cases hfs : fs path with
  | openErr err => exact ⟨err, by rw [List.append_nil]⟩
  | readErr appended err => exact ⟨err, rfl⟩
  | ok content =>
      rw [hfs] at h
      exact absurd h (by simp)

/-- **A hit**: behind unreadable candidates, a readable one ends the scan. The buffer holds
the residues of the candidates before it, then its content. -/
theorem scan_hit {fs : FileSystem} {missed later : List (Str × Str)} {path rest : Str}
    {content : Bytes} (hmissed : ∀ q ∈ missed, readable fs q.1 = false)
    (hhit : fs path = .ok content) (wasm : Bytes) (lastErr : Option IoError) :
    scan fs (missed ++ (path, rest) :: later) wasm lastErr =
      ⟨wasm ++ missed.flatMap (fun q => residue fs q.1) ++ content, some (path, rest), none⟩ := by
  induction missed generalizing wasm lastErr with
  | nil => simp [scan, hhit]
  | cons q missed ih =>
      obtain ⟨err, hq⟩ := scan_cons_of_not_readable (hmissed q List.mem_cons_self)
        (missed ++ (path, rest) :: later) wasm lastErr
      rw [List.cons_append, hq, ih fun p hp => hmissed p (List.mem_cons_of_mem q hp),
        List.flatMap_cons, List.append_assoc wasm]

/-- **A miss**: when no candidate is readable the scan finds nothing, and remembers an
error as soon as there was a candidate. -/
theorem scan_miss {fs : FileSystem} {items : List (Str × Str)}
    (hitems : ∀ q ∈ items, readable fs q.1 = false) (wasm : Bytes)
    (lastErr : Option IoError) :
    (scan fs items wasm lastErr).found = none ∧
      (scan fs items wasm lastErr).wasm =
        wasm ++ items.flatMap (fun q => residue fs q.1) ∧
      (items ≠ [] → (scan fs items wasm lastErr).lastErr.isSome) := by
  induction items generalizing wasm lastErr with
  | nil => simp [scan]
  | cons q items ih =>
      obtain ⟨err, hq⟩ := scan_cons_of_not_readable (hitems q List.mem_cons_self) items wasm lastErr
      obtain ⟨hfound, hwasm, herr⟩ := ih (fun p hp => hitems p (List.mem_cons_of_mem q hp))
        (wasm ++ residue fs q.1) (some err)
      rw [hq]
      refine ⟨hfound, by rw [hwasm, List.flatMap_cons, List.append_assoc], fun _ => ?_⟩
      rcases items with - | ⟨p, items⟩
      · rfl
      · exact herr (List.cons_ne_nil p items)

/-! ### The script of a request path -/

/-- The candidates tried before the first readable one. -/
def missed (fs : FileSystem) (path : Str) : List (Str × Str) :=
  (candidates path).takeWhile fun q => !readable fs q.1

/-- The first readable candidate: the script the request is for. -/
def script (fs : FileSystem) (path : Str) : Option (Str × Str) :=
  (candidates path).find? fun q => readable fs q.1

theorem readable_of_mem_missed {fs : FileSystem} {path : Str} {q : Str × Str}
    (h : q ∈ missed fs path) : readable fs q.1 = false := by
  simpa using List.mem_takeWhile_imp h

/-- The candidates split at the script. -/
theorem candidates_eq_of_script {fs : FileSystem} {path : Str} {hit : Str × Str}
    (h : script fs path = some hit) :
    readable fs hit.1 = true ∧ ∃ later, candidates path = missed fs path ++ hit :: later := by
  obtain ⟨hread, before, later, heq, hbefore⟩ := List.find?_eq_some_iff_append.mp h
  have htake : missed fs path = before := by
    rw [missed, heq, List.takeWhile_append_of_pos hbefore,
      List.takeWhile_cons_of_neg (by simpa using hread), List.append_nil]
  exact ⟨hread, later, by rw [htake]; exact heq⟩

/-- **The script is the shortest readable candidate.** -/
theorem script_spec {fs : FileSystem} {path : Str} {hit : Str × Str}
    (h : script fs path = some hit) :
    readable fs hit.1 = true ∧ hit ∈ candidates path ∧
      ∀ q ∈ candidates path, q.1.length < hit.1.length → readable fs q.1 = false := by
  obtain ⟨hread, later, heq⟩ := candidates_eq_of_script h
  have hpairwise := pairwise_splits (dropSlash path)
  rw [← candidates, heq] at hpairwise
  have hlater := (List.pairwise_append.mp hpairwise).2.1
  rw [List.pairwise_cons] at hlater
  refine ⟨hread, by rw [heq]; exact List.mem_append_right _ List.mem_cons_self, ?_⟩
  intro q hq hlen
  rw [heq, List.mem_append, List.mem_cons] at hq
  rcases hq with hmissed | rfl | hq
  · exact readable_of_mem_missed hmissed
  · omega
  · have hlonger := hlater.1 q hq
    omega

/-- No candidate is readable exactly when there is no script. -/
theorem script_eq_none_iff {fs : FileSystem} {path : Str} :
    script fs path = none ↔ ∀ q ∈ candidates path, readable fs q.1 = false := by
  rw [script, List.find?_eq_none]
  exact forall₂_congr fun q _ => by rw [Bool.not_eq_true]

theorem script_isSome_iff {fs : FileSystem} {path : Str} :
    (script fs path).isSome ↔ ∃ q ∈ candidates path, readable fs q.1 = true := by
  rw [script, List.find?_isSome]

/-- The scan finds the script, and its buffer is the residues of the candidates before it
followed by its content. -/
theorem scanPath_of_script {fs : FileSystem} {path : Str} {hit : Str × Str} {content : Bytes}
    (h : script fs path = some hit) (hcontent : fs hit.1 = .ok content) :
    scanPath fs path =
      ⟨(missed fs path).flatMap (fun q => residue fs q.1) ++ content, some hit, none⟩ := by
  obtain ⟨-, later, hcand⟩ := candidates_eq_of_script h
  rw [scanPath, hcand, scan_hit (fun q hq => readable_of_mem_missed hq) hcontent,
    List.nil_append]

/-- Without a script the scan finds nothing and remembers an error. -/
theorem scanPath_of_no_script {fs : FileSystem} {path : Str} (h : script fs path = none) :
    (scanPath fs path).found = none ∧
      (scanPath fs path).wasm = (candidates path).flatMap (fun q => residue fs q.1) ∧
      (scanPath fs path).lastErr.isSome := by
  obtain ⟨hfound, hwasm, herr⟩ := scan_miss (script_eq_none_iff.mp h) [] none
  exact ⟨hfound, by rw [scanPath, hwasm, List.nil_append], herr (splits_ne_nil _)⟩

/-- The scan finds exactly the script. -/
theorem scanPath_found (fs : FileSystem) (path : Str) :
    (scanPath fs path).found = script fs path := by
  cases h : script fs path with
  | none => exact (scanPath_of_no_script h).1
  | some hit =>
      obtain ⟨content, hcontent⟩ := readable_iff.mp (candidates_eq_of_script h).1
      rw [scanPath_of_script h hcontent]

/-- The scan ends without an error exactly when there is a script. -/
theorem scanPath_lastErr_eq_none_iff (fs : FileSystem) (path : Str) :
    (scanPath fs path).lastErr = none ↔ (script fs path).isSome := by
  cases h : script fs path with
  | none =>
      have herr := (scanPath_of_no_script h).2.2
      constructor
      · intro hnone
        simp [hnone] at herr
      · intro hsome
        simp at hsome
  | some hit =>
      obtain ⟨content, hcontent⟩ := readable_iff.mp (candidates_eq_of_script h).1
      rw [scanPath_of_script h hcontent]
      simp

/-! ### When the buffer is the script's file -/

/-- The buffer is the content of the script exactly when no earlier candidate left a byte
behind. -/
theorem scanPath_wasm_eq_iff {fs : FileSystem} {path : Str} {hit : Str × Str} {content : Bytes}
    (h : script fs path = some hit) (hcontent : fs hit.1 = .ok content) :
    (scanPath fs path).wasm = content ↔ ∀ q ∈ missed fs path, residue fs q.1 = [] := by
  rw [scanPath_of_script h hcontent, List.append_left_eq_self, List.flatMap_eq_nil_iff]

end Wgi
