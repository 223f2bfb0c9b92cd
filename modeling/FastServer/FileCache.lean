import Mathlib.Data.List.Nodup
import FastServer.Basic

namespace FastServer.Sendfile

/-- A `FileCache` of the `sendfile` package: `cache` maps a path to its file, and the entry's list
element is the one of `lruList` (most recently used first) that holds the path. Files are
numbered in the order `os.Open` opens them, and `files` tells which of them are still open. -/
structure FileCache where
  cache : GoMap Bytes Nat
  lruList : List Bytes
  maxFiles : Int
  files : List Bool

def newFileCache (maxFiles : Int) : FileCache := ⟨[], [], maxFiles, []⟩

/-- `lruList.MoveToFront(entry.element)`, the element being the one that holds `path`. -/
def moveToFront (path : Bytes) (l : List Bytes) : List Bytes := path :: l.erase path

/-- The eviction of `Get`: the back of the list is removed, and the file of its path closed and
the entry deleted if there is one. -/
def FileCache.evictOldest (fc : FileCache) : FileCache :=
  match fc.lruList.getLast? with
  | none => fc
  | some oldPath =>
      match fc.cache.get oldPath with
      | some oldFile =>
          { fc with files := fc.files.set oldFile false, cache := fc.cache.delete oldPath,
                    lruList := fc.lruList.dropLast }
      | none => { fc with lruList := fc.lruList.dropLast }

/-- `Get`: the cached file, its path moved to the front; or, if `os.Open` succeeds (`opens`), a
new file pushed to the front, and the oldest evicted when the list is longer than `maxFiles`.
`none` is the error of `os.Open`. The source unlocks between the lookup and the open; here a `Get`
is one step, as it is when calls are made one after another. -/
def FileCache.get (fc : FileCache) (path : Bytes) (opens : Bool) : Option Nat × FileCache :=
  match fc.cache.get path with
  | some file => (some file, { fc with lruList := moveToFront path fc.lruList })
  | none =>
      if opens then
        let file := fc.files.length
        let fc := { fc with files := fc.files ++ [true], lruList := path :: fc.lruList,
                            cache := fc.cache.set path file }
        (some file, if (fc.lruList.length : Int) > fc.maxFiles then fc.evictOldest else fc)
      else (none, fc)

/-- `Close`: every cached file is closed, and the map and the list are emptied. -/
def FileCache.close (fc : FileCache) : FileCache :=
  { fc with files := fc.cache.foldl (fun files e => files.set e.2 false) fc.files, cache := [], lruList := [] }

/-- A `Get` of a path, with whether `os.Open` of it would succeed, or a `Close`. -/
inductive Op
  | get (path : Bytes) (opens : Bool)
  | close

def FileCache.step (fc : FileCache) : Op → FileCache
  | .get path opens => (fc.get path opens).2
  | .close => fc.close

def FileCache.run (fc : FileCache) (ops : List Op) : FileCache := ops.foldl FileCache.step fc

/-- A use of `path`: it goes to the front, and only the `k` most recently used paths stay. -/
def lruTouch (k : Nat) (path : Bytes) (recent : List Bytes) : List Bytes := (path :: recent.erase path).take k

/-- The paths an LRU cache of `k` files holds, most recently used first: a `Get` uses its path
when it is cached or opens, and `Close` forgets everything. -/
def lruStep (k : Nat) (recent : List Bytes) : Op → List Bytes
  | .get path opens => if path ∈ recent ∨ opens = true then lruTouch k path recent else recent
  | .close => []

/-- The map and the list agree, and the open files are exactly the cached ones, one per path. -/
structure FileCache.Consistent (fc : FileCache) : Prop where
  nodup : fc.lruList.Nodup
  keys : ∀ path, path ∈ fc.lruList ↔ (fc.cache.get path).isSome
  cachedOpen : ∀ path file, fc.cache.get path = some file → fc.files[file]? = some true
  inj : ∀ p q file, fc.cache.get p = some file → fc.cache.get q = some file → p = q
  openCached : ∀ file, fc.files[file]? = some true → ∃ path, fc.cache.get path = some file

theorem consistent_new (maxFiles : Int) : (newFileCache maxFiles).Consistent :=
  ⟨List.nodup_nil, fun _ => by simp [newFileCache], fun _ _ h => (by cases h), fun _ _ _ h => (by cases h),
    fun _ h => (by cases h)⟩

theorem mem_dropLast_iff {l : List Bytes} {a q : Bytes} (hl : l.Nodup) (ha : l.getLast? = some a) :
    q ∈ l.dropLast ↔ q ∈ l ∧ q ≠ a := by
  have hne : l ≠ [] := fun h => by rw [h] at ha; cases ha
  have hlast : l.getLast hne = a := Option.some.inj ((List.getLast?_eq_getLast l hne).symm.trans ha)
  have hsplit := List.dropLast_append_getLast hne
  rw [hlast] at hsplit
  have hnd := hsplit ▸ hl
  constructor
  · intro hq
    refine ⟨(List.dropLast_sublist l).subset hq, fun hqa => ?_⟩
    subst hqa
    exact (List.nodup_append.mp hnd).2.2 hq (List.mem_singleton_self q)
  · rintro ⟨hq, hqa⟩
    rw [← hsplit] at hq
    rcases List.mem_append.mp hq with hq | hq
    · exact hq
    · exact absurd (List.mem_singleton.mp hq) hqa

@[simp] theorem evictOldest_lruList (fc : FileCache) : fc.evictOldest.lruList = fc.lruList.dropLast := by
  unfold FileCache.evictOldest
  cases h : fc.lruList.getLast? with
  | none => rw [List.getLast?_eq_none_iff.mp h]; rfl
  | some oldPath => dsimp only; split <;> rfl

@[simp] theorem evictOldest_maxFiles (fc : FileCache) : fc.evictOldest.maxFiles = fc.maxFiles := by
  unfold FileCache.evictOldest
  split
  · rfl
  · split <;> rfl

variable {fc : FileCache}

theorem FileCache.Consistent.evictOldest (hc : fc.Consistent) : fc.evictOldest.Consistent := by
  unfold FileCache.evictOldest
  cases hlast : fc.lruList.getLast? with
  | none => exact hc
  | some old =>
      have hold : (fc.cache.get old).isSome := (hc.keys old).mp (List.mem_of_getLast?_eq_some hlast)
      obtain ⟨f, hf⟩ := Option.isSome_iff_exists.mp hold
      dsimp only
      rw [hf]
      dsimp only
      refine ⟨hc.nodup.sublist (List.dropLast_sublist _), fun q => ?_, fun q g hq => ?_, fun p q g hp hq => ?_,
        fun g hg => ?_⟩
      · rw [mem_dropLast_iff hc.nodup hlast, hc.keys, GoMap.get_delete]
        by_cases hqo : q = old
        · subst hqo; simp
        · simp [hqo]
      · -- another path's file is not the evicted one
        rw [GoMap.get_delete] at hq
        by_cases hqo : q = old
        · subst hqo; simp at hq
        · rw [Function.update_noteq hqo] at hq
          have hgf : f ≠ g := fun e => hqo (hc.inj q old g hq (e ▸ hf))
          rw [List.getElem?_set_ne hgf]
          exact hc.cachedOpen q g hq
      · rw [GoMap.get_delete] at hp hq
        by_cases hpo : p = old
        · subst hpo; simp at hp
        · by_cases hqo : q = old
          · subst hqo; simp at hq
          · rw [Function.update_noteq hpo] at hp
            rw [Function.update_noteq hqo] at hq
            exact hc.inj p q g hp hq
      · dsimp only at hg ⊢
        by_cases hgf : f = g
        · subst hgf
          have hlt := (List.getElem?_eq_some_iff.mp hg).1
          rw [List.length_set] at hlt
          rw [List.getElem?_set_self hlt] at hg
          cases hg
        · rw [List.getElem?_set_ne hgf] at hg
          obtain ⟨q, hq⟩ := hc.openCached g hg
          have hqo : q ≠ old := fun e => hgf (Option.some.inj ((e ▸ hf).symm.trans hq))
          exact ⟨q, by rw [GoMap.get_delete, Function.update_noteq hqo, hq]⟩

theorem FileCache.Consistent.pushFront (hc : fc.Consistent) {path : Bytes} (hp : fc.cache.get path = none) :
    FileCache.Consistent
      { fc with files := fc.files ++ [true], lruList := path :: fc.lruList, cache := fc.cache.set path fc.files.length } := by
  have hnot : path ∉ fc.lruList := fun h => by simpa [hp] using (hc.keys path).mp h
  -- cached files are older than the new one
  have hlt : ∀ q g, fc.cache.get q = some g → g < fc.files.length := fun q g hq =>
    (List.getElem?_eq_some_iff.mp (hc.cachedOpen q g hq)).1
  refine ⟨List.nodup_cons.mpr ⟨hnot, hc.nodup⟩, fun q => ?_, fun q g hq => ?_, fun p q g hp' hq => ?_, fun g hg => ?_⟩
  · by_cases hq : q = path
    · subst hq; simp
    · simp only [List.mem_cons, hq, false_or, hc.keys, GoMap.get_set_ne _ _ (Ne.symm hq)]
  · by_cases hqp : q = path
    · subst hqp
      rw [GoMap.get_set_self] at hq
      cases hq
      exact List.getElem?_concat_length _ _
    · rw [GoMap.get_set_ne _ _ (Ne.symm hqp)] at hq
      rw [List.getElem?_append_left (hlt q g hq)]
      exact hc.cachedOpen q g hq
  · -- the new file is cached under its path only
    have hfresh : ∀ r, r ≠ path → fc.cache.get r ≠ some fc.files.length := fun r _ hr =>
      Nat.lt_irrefl _ (hlt r _ hr)
    by_cases hpp : p = path
    · by_cases hqp : q = path
      · rw [hpp, hqp]
      · subst hpp
        rw [GoMap.get_set_self] at hp'
        cases hp'
        rw [GoMap.get_set_ne _ _ (Ne.symm hqp)] at hq
        exact absurd hq (hfresh q hqp)
    · rw [GoMap.get_set_ne _ _ (Ne.symm hpp)] at hp'
      by_cases hqp : q = path
      · subst hqp
        rw [GoMap.get_set_self] at hq
        cases hq
        exact absurd hp' (hfresh p hpp)
      · rw [GoMap.get_set_ne _ _ (Ne.symm hqp)] at hq
        exact hc.inj p q g hp' hq
  · rcases getElem?_concat_eq_some hg with hg | ⟨rfl, -⟩
    · obtain ⟨q, hq⟩ := hc.openCached g hg
      have hqp : q ≠ path := fun e => by rw [e, hp] at hq; cases hq
      exact ⟨q, by rw [GoMap.get_set_ne _ _ (Ne.symm hqp), hq]⟩
    · exact ⟨path, GoMap.get_set_self _ _ _⟩

theorem FileCache.Consistent.get (hc : fc.Consistent) (path : Bytes) (opens : Bool) : (fc.get path opens).2.Consistent := by
  unfold FileCache.get
  cases hp : fc.cache.get path with
  | some file =>
      -- a hit moves the path to the front
      have hmem : path ∈ fc.lruList := (hc.keys path).mpr (by simp [hp])
      refine ⟨List.nodup_cons.mpr ⟨hc.nodup.not_mem_erase, hc.nodup.erase path⟩, fun q => ?_, hc.cachedOpen,
        hc.inj, hc.openCached⟩
      by_cases hq : q = path
      · subst hq; simp [moveToFront, hp]
      · simp only [moveToFront, List.mem_cons, hq, false_or, List.mem_erase_of_ne hq, hc.keys]
  | none =>
      dsimp only
      split_ifs
      · exact (hc.pushFront hp).evictOldest
      · exact hc.pushFront hp
      · exact hc

theorem getElem?_foldl_set (m : GoMap Bytes Nat) (files : List Bool) (g : Nat) :
    (m.foldl (fun files e => files.set e.2 false) files)[g]? =
      if g ∈ m.map Prod.snd then files[g]?.map fun _ => false else files[g]? := by
  induction m generalizing files with
  | nil => simp
  | cons e m ih =>
      rw [List.foldl_cons, ih, List.getElem?_set]
      by_cases he : e.2 = g
      · subst he
        by_cases hlt : e.2 < files.length
        · simp [hlt, List.getElem?_eq_getElem hlt]
        · simp [hlt, List.getElem?_eq_none (Nat.le_of_not_lt hlt)]
      · simp only [if_neg he, List.map_cons, List.mem_cons, or_iff_right (Ne.symm he)]

theorem FileCache.Consistent.close_files (hc : fc.Consistent) (g : Nat) : fc.close.files[g]? ≠ some true := by
  rw [FileCache.close, getElem?_foldl_set]
  split_ifs with hg
  · cases fc.files[g]? <;> simp
  · intro h
    obtain ⟨q, hq⟩ := hc.openCached g h
    exact hg (List.mem_map_of_mem Prod.snd (GoMap.mem_of_get hq))

theorem FileCache.Consistent.close (hc : fc.Consistent) : fc.close.Consistent :=
  ⟨List.nodup_nil, fun _ => by simp [FileCache.close], fun _ _ h => (by cases h), fun _ _ _ h => (by cases h),
    fun g h => absurd h (hc.close_files g)⟩

theorem FileCache.Consistent.step (hc : fc.Consistent) (op : Op) : (fc.step op).Consistent := by
  cases op with
  | get path opens => exact hc.get path opens
  | close => exact hc.close

@[simp] theorem step_maxFiles (fc : FileCache) (op : Op) : (fc.step op).maxFiles = fc.maxFiles := by
  cases op with
  | get path opens =>
      simp only [FileCache.step, FileCache.get]
      split
      · rfl
      · split_ifs <;> simp
  | close => rfl

theorem FileCache.Consistent.lruList_step (hc : fc.Consistent) (hlen : fc.lruList.length ≤ fc.maxFiles.toNat) (op : Op) :
    (fc.step op).lruList = lruStep fc.maxFiles.toNat fc.lruList op := by
  cases op with
  | close => rfl
  | get path opens =>
      simp only [FileCache.step, FileCache.get, lruStep, lruTouch]
      cases hp : fc.cache.get path with
      | some file =>
          have hmem : path ∈ fc.lruList := (hc.keys path).mpr (by simp [hp])
          have hpos := List.length_pos_of_mem hmem
          dsimp only
          rw [if_pos (Or.inl hmem), List.take_of_length_le (by simp [List.length_erase_of_mem hmem]; omega)]
          rfl
      | none =>
          have hnot : path ∉ fc.lruList := fun h => by simpa [hp] using (hc.keys path).mp h
          rw [List.erase_of_not_mem hnot]
          cases opens with
          | false => simp [hnot]
          | true =>
              simp only [if_true, or_true]
              split_ifs with hover
              · rw [evictOldest_lruList, List.dropLast_eq_take]
                simp only [List.length_cons] at hover ⊢
                congr 1
                omega
              · exact (List.take_of_length_le (by simp only [List.length_cons] at hover ⊢; omega)).symm

theorem length_lruStep_le (k : Nat) (recent : List Bytes) (hk : recent.length ≤ k) (op : Op) :
    (lruStep k recent op).length ≤ k := by
  cases op with
  | close => exact Nat.zero_le _
  | get path opens =>
      simp only [lruStep, lruTouch]
      split_ifs
      · exact List.length_take_le _ _
      · exact hk

theorem length_foldl_lruStep (k : Nat) (ops : List Op) : (ops.foldl (lruStep k) []).length ≤ k := by
  induction ops using List.reverseRecOn with
  | nil => exact Nat.zero_le _
  | append_singleton ops op ih =>
      rw [List.foldl_append, List.foldl_cons, List.foldl_nil]
      exact length_lruStep_le _ _ ih op

theorem run_consistent (m : Int) (ops : List Op) :
    ((newFileCache m).run ops).Consistent ∧ ((newFileCache m).run ops).maxFiles = m ∧
      ((newFileCache m).run ops).lruList = ops.foldl (lruStep m.toNat) [] := by
  unfold FileCache.run
  induction ops using List.reverseRecOn with
  | nil => exact ⟨consistent_new m, rfl, rfl⟩
  | append_singleton ops op ih =>
      obtain ⟨hc, hm, hl⟩ := ih
      have hlen := length_foldl_lruStep m.toNat ops
      rw [← hl] at hlen
      rw [List.foldl_append, List.foldl_cons, List.foldl_nil, List.foldl_append, List.foldl_cons, List.foldl_nil]
      refine ⟨hc.step op, by rw [step_maxFiles, hm], ?_⟩
      rw [hc.lruList_step (by rw [hm]; exact hlen), hm, hl]

/-- In every run of `Get`s and `Close`s on `NewFileCache(maxFiles)`, the cached paths are
distinct and form the LRU list: a `Get` of a cached path, or of one that `os.Open` opens, moves
it to the front and keeps the `maxFiles` most recently used paths (none when `maxFiles ≤ 0`),
a failed open changes nothing, and `Close` empties it; the map holds an entry for exactly the
paths of the list. -/
theorem run_lruList (m : Int) (ops : List Op) :
    ((newFileCache m).run ops).lruList = ops.foldl (lruStep m.toNat) [] ∧
      ((newFileCache m).run ops).lruList.Nodup ∧
      ∀ path, path ∈ ((newFileCache m).run ops).lruList ↔ (((newFileCache m).run ops).cache.get path).isSome :=
  ⟨(run_consistent m ops).2.2, (run_consistent m ops).1.nodup, (run_consistent m ops).1.keys⟩

/-- In every run of `Get`s and `Close`s on `NewFileCache(maxFiles)`, a file is open exactly when
it is the file cached for some path, and no two paths share one: every file `os.Open` opened
and the cache let go of, by eviction or by `Close`, has been closed. -/
theorem run_open_files (m : Int) (ops : List Op) :
    (∀ file, ((newFileCache m).run ops).files[file]? = some true ↔
      ∃ path, ((newFileCache m).run ops).cache.get path = some file) ∧
    ∀ p q file, ((newFileCache m).run ops).cache.get p = some file →
      ((newFileCache m).run ops).cache.get q = some file → p = q := by
  obtain ⟨hc, -, -⟩ := run_consistent m ops
  exact ⟨fun file => ⟨hc.openCached file, fun ⟨path, h⟩ => hc.cachedOpen path file h⟩, hc.inj⟩

theorem evictOldest_files {fc : FileCache} {old : Bytes} {f : Nat} (hlast : fc.lruList.getLast? = some old)
    (hf : fc.cache.get old = some f) : fc.evictOldest.files = fc.files.set f false := by
  unfold FileCache.evictOldest
  rw [hlast]
  dsimp only
  rw [hf]

/-- The file a `Get` returns is still open after it exactly when `maxFiles` is at least one: a
cache with `maxFiles ≤ 0` evicts, and closes, every file it has just opened. -/
theorem FileCache.Consistent.get_file_open_iff (hc : fc.Consistent) (hlen : fc.lruList.length ≤ fc.maxFiles.toNat)
    {path : Bytes} {opens : Bool} {file : Nat} (h : (fc.get path opens).1 = some file) :
    (fc.get path opens).2.files[file]? = some true ↔ 0 < fc.maxFiles := by
  unfold FileCache.get at h ⊢
  cases hp : fc.cache.get path with
  | some f =>
      rw [hp] at h
      cases h
      have hpos := List.length_pos_of_mem ((hc.keys path).mpr (by simp [hp]))
      exact ⟨fun _ => by omega, fun _ => hc.cachedOpen path _ hp⟩
  | none =>
      rw [hp] at h
      cases opens with
      | false => cases h
      | true =>
          rw [if_pos rfl] at h ⊢
          dsimp only at h ⊢
          cases h
          have hnot : path ∉ fc.lruList := fun h => by simpa [hp] using (hc.keys path).mp h
          have hnew : (fc.files ++ [true])[fc.files.length]? = some true := List.getElem?_concat_length _ _
          split_ifs with hover
          · -- the pushed path is evicted only when it is the only one
            simp only [List.length_cons] at hover
            by_cases hl : fc.lruList = []
            · have hlast : (path :: fc.lruList).getLast? = some path := by rw [hl]; rfl
              rw [evictOldest_files hlast (GoMap.get_set_self _ _ _), List.getElem?_set_self (by simp)]
              rw [hl, List.length_nil] at hover
              exact ⟨fun h => (by cases h), fun h => by omega⟩
            · obtain ⟨old, hlast⟩ : ∃ old, fc.lruList.getLast? = some old := ⟨_, List.getLast?_eq_getLast _ hl⟩
              have hold := List.mem_of_getLast?_eq_some hlast
              have hlast' : (path :: fc.lruList).getLast? = some old := by rw [List.getLast?_cons, hlast]; rfl
              have hop : old ≠ path := fun e => hnot (e ▸ hold)
              obtain ⟨g, hg⟩ := Option.isSome_iff_exists.mp ((hc.keys old).mp hold)
              have hgn : g ≠ fc.files.length := fun e => by
                have := (List.getElem?_eq_some_iff.mp (hc.cachedOpen old g hg)).1
                omega
              rw [evictOldest_files hlast' (by rw [GoMap.get_set_ne _ _ (Ne.symm hop)]; exact hg),
                List.getElem?_set_ne hgn, hnew]
              have := List.length_pos.mpr hl
              exact ⟨fun _ => by omega, fun _ => rfl⟩
          · simp only [List.length_cons] at hover
            exact ⟨fun _ => by omega, fun _ => hnew⟩

/-- In every run of `Get`s and `Close`s on `NewFileCache(maxFiles)`, the file the next `Get`
returns is open after it exactly when `maxFiles ≥ 1`: with `maxFiles ≤ 0` every `Get` returns a
file it has already closed. -/
theorem get_open_iff (m : Int) (ops : List Op) {path : Bytes} {opens : Bool} {file : Nat}
    (h : (((newFileCache m).run ops).get path opens).1 = some file) :
    (((newFileCache m).run ops).get path opens).2.files[file]? = some true ↔ 0 < m := by
  obtain ⟨hc, hm, hl⟩ := run_consistent m ops
  have hlen : ((newFileCache m).run ops).lruList.length ≤ ((newFileCache m).run ops).maxFiles.toNat := by
    rw [hl, hm]
    exact length_foldl_lruStep m.toNat ops
  rw [hc.get_file_open_iff hlen h, hm]

/-- `NewFileCache(0)`: the first `Get` opens file 0 and returns it closed. -/
theorem get_open_iff_zero :
    (((newFileCache 0).run []).get (lit "index.html") true).1 = some 0 ∧
      ((((newFileCache 0).run []).get (lit "index.html") true).2.files[0]? = some true ↔ (0 : Int) < 0) :=
  ⟨rfl, get_open_iff 0 [] rfl⟩

end FastServer.Sendfile
