import Mathlib.Data.List.Infix
import Wgi.Search

/-!
# Which Files a Request Can Open

The handlers pass every candidate of the request path to `File::open`, which resolves it
against the working directory of the server. The only step they take to keep a candidate
below that directory is to drop one leading slash.

`opened` is the trace of the `File::open` calls of a search. `StaysInside` is the lexical
notion of a path below the working directory.

## Main results

* `Cgi.search_congr`, `Lambda.search_congr`: a search looks at no other path than the ones
  in its trace.
* `mem_openedLoop_imp`, `openedLoop_of_unreadable`: the trace is among the candidates, and is all
  of them when nothing can be read.
* `opened_inside_iff`: both handlers stay inside on every file system exactly when the
  whole path behind its first slash does.
-/

namespace Wgi

/-! ### The trace of a search -/

/-- The paths that a search loop passes to `File::open`. Both loops stop at the first item
that panics and behind the first path that is read to its end. -/
def openedLoop (fs : FileSystem) : List (Except Panic (Str × Str)) → List Str
  | [] => []
  | .error _ :: _ => []
  | .ok (path, _) :: items => path :: if readable fs path then [] else openedLoop fs items

/-- The paths that `cgi::handler` passes to `File::open`. -/
def Cgi.opened (fs : FileSystem) (path : Str) : List Str :=
  match Cgi.iterPathSplits path with
  | .error _ => []
  | .ok items => openedLoop fs items

/-- The paths that `lambda::handler` passes to `File::open`. -/
def Lambda.opened (fs : FileSystem) (path : Str) : List Str :=
  match Lambda.iterPathSplits path with
  | .error _ => []
  | .ok items => openedLoop fs items

/-- The trace of both handlers, over the candidates. -/
def opened (fs : FileSystem) (path : Str) : List Str :=
  openedLoop fs ((candidates path).map .ok)

theorem Cgi.opened_eq (fs : FileSystem) (path : Str) : Cgi.opened fs path = Wgi.opened fs path := by
  rw [Cgi.opened, Cgi.iterPathSplits, iterPathSplits_eq]
  rfl

theorem Lambda.opened_eq (fs : FileSystem) (path : Str) :
    Lambda.opened fs path = Wgi.opened fs path := by
  rw [Lambda.opened, Lambda.iterPathSplits, iterPathSplits_eq]
  rfl

/-- A scan depends on the file system only through the paths it opens. -/
theorem scan_congr {fs fs' : FileSystem} {items : List (Str × Str)}
    (h : ∀ s ∈ openedLoop fs (items.map .ok), fs' s = fs s) (wasm : Bytes)
    (lastErr : Option IoError) : scan fs' items wasm lastErr = scan fs items wasm lastErr := by
  induction items generalizing wasm lastErr with
  | nil => rfl
  | cons item items ih =>
      obtain ⟨path, rest⟩ := item
      rw [List.map_cons, openedLoop, List.forall_mem_cons] at h
      obtain ⟨hpath, hitems⟩ := h
      rw [scan, scan, hpath]
      rw [readable] at hitems
      cases hfs : fs path with
      | ok content => rfl
      | openErr err =>
          rw [hfs, if_neg Bool.false_ne_true] at hitems
          exact ih hitems wasm (some err)
      | readErr appended err =>
          rw [hfs, if_neg Bool.false_ne_true] at hitems
          exact ih hitems (wasm ++ appended) (some err)

/-- The CGI search looks at no path outside of its trace. -/
theorem Cgi.search_congr {fs fs' : FileSystem} {path : Str}
    (h : ∀ s ∈ Cgi.opened fs path, fs' s = fs s) : Cgi.search fs' path = Cgi.search fs path := by
  rw [Cgi.opened_eq] at h
  rw [Cgi.search_eq, Cgi.search_eq, scanPath, scanPath, scan_congr h]

/-- The lambda search looks at no path outside of its trace. -/
theorem Lambda.search_congr {fs fs' : FileSystem} {path : Str}
    (h : ∀ s ∈ Lambda.opened fs path, fs' s = fs s) :
    Lambda.search fs' path = Lambda.search fs path := by
  rw [Lambda.opened_eq] at h
  rw [Lambda.search_eq, Lambda.search_eq, scanPath, scanPath, scan_congr h]

/-- Every opened path is the script of an item. -/
theorem mem_openedLoop_imp {fs : FileSystem} {items : List (Str × Str)} {s : Str}
    (h : s ∈ openedLoop fs (items.map .ok)) : ∃ rest, (s, rest) ∈ items := by
  induction items with
  | nil => exact absurd h List.not_mem_nil
  | cons item items ih =>
      obtain ⟨path, rest⟩ := item
      rw [List.map_cons, openedLoop, List.mem_cons] at h
      rcases h with rfl | h
      · exact ⟨rest, List.mem_cons_self⟩
      · split at h
        · exact absurd h List.not_mem_nil
        · obtain ⟨rest', hmem⟩ := ih h
          exact ⟨rest', List.mem_cons_of_mem _ hmem⟩

/-- A search that can read nothing opens every item. -/
theorem openedLoop_of_unreadable {fs : FileSystem} (hfs : ∀ s, readable fs s = false)
    (items : List (Str × Str)) : openedLoop fs (items.map .ok) = items.map Prod.fst := by
  induction items with
  | nil => rfl
  | cons item items ih =>
      obtain ⟨path, rest⟩ := item
      rw [List.map_cons, openedLoop, hfs path, if_neg Bool.false_ne_true, ih, List.map_cons]

/-! ### Staying inside -/

/-- The `/`-separated segments of a path. -/
def segments (path : Str) : List Str :=
  path.splitOn '/'

/-- The segment `..`. -/
def dotdot : Str := ['.', '.']

/-- A segment that names something: not empty, not `.`, and not `..`. -/
def isOrdinary (segment : Str) : Bool :=
  segment != [] && segment != ['.'] && segment != dotdot

/-- No `..` of a list of segments leads above where the list started: read from the left,
there are never more `..` than ordinary segments. -/
def NeverAbove (segs : List Str) : Prop :=
  ∀ read, read <+: segs → read.count dotdot ≤ read.countP isOrdinary

/-- A path stays inside the working directory lexically: it is relative, and no `..` of it
leads above. -/
def StaysInside (path : Str) : Prop :=
  path.head? ≠ some '/' ∧ NeverAbove (segments path)

instance (segs : List Str) : Decidable (NeverAbove segs) :=
  decidable_of_iff (∀ read ∈ segs.inits, read.count dotdot ≤ read.countP isOrdinary)
    (forall_congr' fun read => by rw [List.mem_inits])

instance (path : Str) : Decidable (StaysInside path) :=
  inferInstanceAs (Decidable (_ ∧ _))

/-- The segments of a candidate are the first segments of the path. -/
theorem segments_of_mem_splits {path script rest : Str} (h : (script, rest) ∈ splits path) :
    segments script <+: segments path := by
  obtain ⟨rfl, rfl | hrest⟩ := mem_splits.mp h
  · rw [List.append_nil]
  · obtain ⟨rest', rfl⟩ := List.head?_eq_some_iff.mp hrest
    rw [segments, segments, List.splitOn_append_cons_self]
    exact List.prefix_append _ _

/-- A candidate of a path that stays inside stays inside. -/
theorem StaysInside.of_mem_splits {path script rest : Str} (hpath : StaysInside path)
    (h : (script, rest) ∈ splits path) : StaysInside script := by
  refine ⟨fun hslash => hpath.1 ?_,
    fun read hread => hpath.2 read (hread.trans (segments_of_mem_splits h))⟩
  obtain ⟨script', rfl⟩ := List.head?_eq_some_iff.mp hslash
  rw [← (mem_splits.mp h).1]
  rfl

/-- **When the handlers stay inside**: on every file system every path that either handler
opens stays inside the working directory, exactly when the whole request path behind its
first slash does. -/
theorem opened_inside_iff (path : Str) :
    (∀ fs, (∀ s ∈ Cgi.opened fs ('/' :: path), StaysInside s) ∧
        ∀ s ∈ Lambda.opened fs ('/' :: path), StaysInside s) ↔
      StaysInside path := by
  have hcand : candidates ('/' :: path) = splits path := by
    rw [candidates, dropSlash, if_pos rfl]
  constructor
  · intro h
    -- a file system on which nothing opens makes the loop reach the last candidate
    have hall := (h fun _ => .openErr ⟨.other, ""⟩).1 path
    rw [Cgi.opened_eq, opened, hcand, openedLoop_of_unreadable fun _ => rfl] at hall
    exact hall (List.mem_map.mpr ⟨(path, []), mem_splits.mpr ⟨List.append_nil path, .inl rfl⟩, rfl⟩)
  · intro hpath fs
    have hopened : ∀ s ∈ opened fs ('/' :: path), StaysInside s := by
      intro s hs
      rw [opened, hcand] at hs
      obtain ⟨rest, hmem⟩ := mem_openedLoop_imp hs
      exact hpath.of_mem_splits hmem
    rw [Cgi.opened_eq, Lambda.opened_eq]
    exact ⟨hopened, hopened⟩

/-- Two leading slashes: where nothing else opens, both handlers open an absolute path. -/
theorem opened_escapes :
    ¬ ∀ path fs, path.head? = some '/' → (∀ s ∈ Cgi.opened fs path, StaysInside s) ∧
      ∀ s ∈ Lambda.opened fs path, StaysInside s := by
  intro h
  have hopened := (h "//etc/passwd".toList (fun _ => .openErr ⟨.other, ""⟩) rfl).1
    "/etc/passwd".toList (by rw [Cgi.opened_eq]; decide)
  exact hopened.1 rfl

end Wgi
