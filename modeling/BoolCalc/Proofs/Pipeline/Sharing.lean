import BoolCalc.Proofs.Pipeline.CanonicalText
import BoolCalc.Proofs.Pipeline.Effects

namespace BoolCalc

/-!
# Objects of a shared cache

* `Memory.keep_of_find?_eq_none` : handing a tree to the cache under a key that it does not hold;
* `Memory.Holds` : the invariant, the cache holds the first of the keys that were compiled, and an object that was
  given out twice is in the cache;
* `Compilation`, `Sharing`, `Sharing.afterAll` : compilations one after the other that share a cache;
* `Sharing.holds_afterAll` : the invariant after any compilations;
* `Sharing.objects_afterAll` : **sharing**, two compilations come to one object if they have one key that is among the
  first.
-/

/-! ### Handing a tree to the cache -/

namespace Memory

variable {m : Memory} {c : TreeCache} {key : CacheKey}

/-- For a `key` that the cache `c` does not have, `keep` makes a new object with `m.births`, and stores it if
`c.size < c.capacity`. -/
theorem keep_of_find?_eq_none (hcache : m.cache = some c) (hnone : m.find? key = none) (tree : Expr) :
    m.keep key tree = (⟨m.births, tree⟩,
      { m with
        cache := some (if c.size < c.capacity then { c with entries := (key, ⟨m.births, tree⟩) :: c.entries } else c)
        births := m.births + 1 }) := by
  have hget : c.get? key = none := by
    rwa [find?, hcache] at hnone
  unfold keep
  rw [hcache]
  dsimp only
  rw [TreeCache.insert, hget]
  dsimp only
  split <;> rfl

/-- What the memory holds after `keep`. -/
theorem find?_keep (hcache : m.cache = some c) (hnone : m.find? key = none) (tree : Expr) (k : CacheKey) :
    (m.keep key tree).2.find? k =
      if k = key ∧ c.size < c.capacity then some (m.keep key tree).1 else m.find? k := by
  rw [keep_of_find?_eq_none hcache hnone, find?, find?, hcache]
  by_cases hroom : c.size < c.capacity
  · by_cases hk : k = key
    · simp [hroom, hk, TreeCache.get?]
    · simp [hroom, hk, TreeCache.get?, List.lookup_cons, beq_false_of_ne hk]
  · simp [hroom]

/-- What the memory held before `keep` stays there. -/
theorem find?_keep_of_eq_some (hcache : m.cache = some c) (hnone : m.find? key = none) (tree : Expr) {k : CacheKey}
    {o : TreeObject} (ho : m.find? k = some o) : (m.keep key tree).2.find? k = some o := by
  rw [find?_keep hcache hnone, if_neg, ho]
  rintro ⟨rfl, -⟩
  cases hnone.symm.trans ho

end Memory

/-! ### What the cache holds -/

/-- `x` comes behind the distinct items of `xs`, unless it is one of them. -/
theorem eraseDups_concat [BEq α] [LawfulBEq α] (xs : List α) (x : α) [Decidable (x ∈ xs)] :
    (xs ++ [x]).eraseDups = if x ∈ xs then xs.eraseDups else xs.eraseDups ++ [x] := by
  rw [List.eraseDups_append]
  by_cases h : x ∈ xs
  · simp [List.removeAll, h]
  · simp [List.removeAll, h, List.eraseDups_cons]

/-- `c` has an object for `key` if it is the key of an entry. -/
theorem TreeCache.exists_get?_iff {c : TreeCache} {key : CacheKey} :
    (∃ o, c.get? key = some o) ↔ key ∈ c.entries.map Prod.fst := by
  rw [← Option.ne_none_iff_exists', get?, ne_eq, List.lookup_eq_none_iff]
  simp

/-- The distinct keys of the objects `compiled`, in the order of their first occurrences. -/
def distinctKeys (compiled : List (CacheKey × TreeObject)) : List CacheKey := (compiled.map Prod.fst).eraseDups

theorem mem_distinctKeys {compiled : List (CacheKey × TreeObject)} {key : CacheKey} :
    key ∈ distinctKeys compiled ↔ ∃ o, (key, o) ∈ compiled := by
  simp [distinctKeys]

theorem distinctKeys_concat (compiled : List (CacheKey × TreeObject)) (key : CacheKey) (o : TreeObject) :
    distinctKeys (compiled ++ [(key, o)]) =
      if key ∈ distinctKeys compiled then distinctKeys compiled else distinctKeys compiled ++ [key] := by
  rw [distinctKeys, List.map_append, List.map_singleton, eraseDups_concat, distinctKeys]
  simp only [List.mem_eraseDups]

namespace Memory

/-- The invariant of a memory with a cache of a `capacity`, after compilations came to the objects `compiled`, each
with its key. -/
structure Holds (capacity : Nat) (compiled : List (CacheKey × TreeObject)) (m : Memory) : Prop where
  /-- The cache has the first `capacity` of the `distinctKeys`. -/
  stored : ∃ c, m.cache = some c ∧ c.capacity = capacity ∧
    (c.entries.map Prod.fst).reverse = (distinctKeys compiled).take capacity
  /-- The memory holds one of the objects `compiled` for a key, and no other was given out for it. -/
  kept : ∀ key o, m.find? key = some o → (key, o) ∈ compiled ∧ ∀ o', (key, o') ∈ compiled → o' = o
  /-- The next object will be a new one: all births are before `m.births`. -/
  older : ∀ x ∈ compiled, x.2.birth < m.births
  apart : ∀ x ∈ compiled, ∀ y ∈ compiled, x.2.birth = y.2.birth → x = y
  /-- Of two compilations with the same object, the key is in the cache. -/
  twice : compiled.Pairwise fun x y => x.2.birth = y.2.birth → ∃ o, m.find? x.1 = some o

variable {capacity : Nat} {compiled : List (CacheKey × TreeObject)} {m : Memory} {key : CacheKey}

/-- `Holds` for an empty cache. -/
theorem holds_nil (capacity : Nat) (m : Memory) : Holds capacity [] { m with cache := some ⟨capacity, []⟩ } where
  stored := ⟨_, rfl, rfl, by simp [distinctKeys]⟩
  kept := nofun
  older := nofun
  apart := nofun
  twice := .nil

theorem Holds.log (h : Holds capacity compiled m) (logged : List Log.Event) :
    Holds capacity compiled { m with logged } := ⟨h.stored, h.kept, h.older, h.apart, h.twice⟩

/-- The cache has an object for `key` if this is one of the first `capacity` of the `distinctKeys`. -/
theorem Holds.exists_find?_iff (h : Holds capacity compiled m) :
    (∃ o, m.find? key = some o) ↔ key ∈ (distinctKeys compiled).take capacity := by
  obtain ⟨c, hcache, -, hkeys⟩ := h.stored
  rw [← hkeys, List.mem_reverse, ← TreeCache.exists_get?_iff, find?, hcache, Option.bind_some]

theorem Holds.size_eq (h : Holds capacity compiled m) {c : TreeCache} (hcache : m.cache = some c) :
    c.size = ((distinctKeys compiled).take capacity).length := by
  obtain ⟨c', hcache', -, hkeys⟩ := h.stored
  obtain rfl := Option.some.inj (hcache'.symm.trans hcache)
  rw [← hkeys, List.length_reverse, List.length_map, TreeCache.size]

/-- If the cache has `o` for `key`, a compilation comes to it once more. -/
theorem Holds.found (h : Holds capacity compiled m) {o : TreeObject} (hfound : m.find? key = some o) :
    Holds capacity (compiled ++ [(key, o)]) m := by
  obtain ⟨hmem, hunique⟩ := h.kept key o hfound
  -- The pair that is appended is one that was compiled before.
  have hsame {x : CacheKey × TreeObject} (hx : x ∈ compiled ++ [(key, o)]) : x ∈ compiled := by
    rcases List.mem_append.1 hx with hx | hx
    · exact hx
    · rw [List.mem_singleton.1 hx]
      exact hmem
  constructor
  case stored =>
    rw [distinctKeys_concat, if_pos (mem_distinctKeys.2 ⟨o, hmem⟩)]
    exact h.stored
  case kept =>
    intro k o' hk
    obtain ⟨hmem', hunique'⟩ := h.kept k o' hk
    exact ⟨List.mem_append_left _ hmem', fun o'' ho'' => hunique' o'' (hsame ho'')⟩
  case older => exact fun x hx => h.older x (hsame hx)
  case apart => exact fun x hx y hy => h.apart x (hsame hx) y (hsame hy)
  case twice =>
    refine List.pairwise_append.2 ⟨h.twice, List.pairwise_singleton _ _, fun x hx y hy hbirth => ?_⟩
    obtain rfl := List.mem_singleton.1 hy
    rw [h.apart x hx _ hmem hbirth]
    exact ⟨o, hfound⟩

/-- If there is room in the cache, all `distinctKeys` are in it. -/
theorem take_distinctKeys_of_lt (hroom : ((distinctKeys compiled).take capacity).length < capacity) :
    (distinctKeys compiled).take capacity = distinctKeys compiled := by
  rw [List.length_take] at hroom
  exact List.take_of_length_le (by omega)

/-- The first of `distinctKeys` after `key` was compiled: it is one of them if there was room. -/
theorem take_distinctKeys_concat (o : TreeObject) (hnew : key ∉ (distinctKeys compiled).take capacity) :
    (distinctKeys (compiled ++ [(key, o)])).take capacity =
      if ((distinctKeys compiled).take capacity).length < capacity then (distinctKeys compiled).take capacity ++ [key]
      else (distinctKeys compiled).take capacity := by
  rw [distinctKeys_concat]
  by_cases hroom : ((distinctKeys compiled).take capacity).length < capacity
  · rw [if_pos hroom]
    have hall := take_distinctKeys_of_lt hroom
    rw [hall] at hnew hroom ⊢
    rw [if_neg hnew]
    exact List.take_of_length_le (by rw [List.length_append, List.length_singleton]; omega)
  · rw [if_neg hroom]
    rw [List.length_take] at hroom
    split
    · rfl
    · exact List.take_append_of_le_length (by omega)

theorem Holds.not_mem_take (h : Holds capacity compiled m) (hnone : m.find? key = none) :
    key ∉ (distinctKeys compiled).take capacity := by
  intro hmem
  obtain ⟨o, ho⟩ := h.exists_find?_iff.2 hmem
  cases hnone.symm.trans ho

/-- `Holds.kept` after `keep`. -/
theorem Holds.kept_keep (h : Holds capacity compiled m) (hnone : m.find? key = none) (tree : Expr) {k : CacheKey}
    {o : TreeObject} (ho : (m.keep key tree).2.find? k = some o) :
    (k, o) ∈ compiled ++ [(key, (m.keep key tree).1)] ∧
      ∀ o', (k, o') ∈ compiled ++ [(key, (m.keep key tree).1)] → o' = o := by
  obtain ⟨c, hcache, rfl, -⟩ := h.stored
  rw [find?_keep hcache hnone] at ho
  split at ho
  · next hstored =>
    -- There was room for the key, so it was not compiled before.
    obtain ⟨rfl, hroom⟩ := hstored
    obtain rfl := Option.some.inj ho
    have hnew := h.not_mem_take hnone
    rw [h.size_eq hcache] at hroom
    rw [take_distinctKeys_of_lt hroom] at hnew
    refine ⟨by simp, fun o' ho' => ?_⟩
    rcases List.mem_append.1 ho' with hold | hlast
    · exact absurd (mem_distinctKeys.2 ⟨o', hold⟩) hnew
    · exact (Prod.mk.inj (List.mem_singleton.1 hlast)).2
  · obtain ⟨hmem, hunique⟩ := h.kept k o ho
    refine ⟨List.mem_append_left _ hmem, fun o' ho' => ?_⟩
    rcases List.mem_append.1 ho' with hold | hlast
    · exact hunique o' hold
    · obtain ⟨rfl, -⟩ := Prod.mk.inj (List.mem_singleton.1 hlast)
      cases hnone.symm.trans ho

/-- A `tree` for a key that the cache does not have is handed to it. -/
theorem Holds.keep (h : Holds capacity compiled m) (hnone : m.find? key = none) (tree : Expr) :
    Holds capacity (compiled ++ [(key, (m.keep key tree).1)]) (m.keep key tree).2 := by
  obtain ⟨c, hcache, rfl, hkeys⟩ := h.stored
  have hkeep := keep_of_find?_eq_none hcache hnone tree
  -- The new object has the birth `m.births`, which is above all those before.
  have hyounger {x : CacheKey × TreeObject} (hx : x ∈ compiled) : x.2.birth ≠ (m.keep key tree).1.birth := by
    rw [hkeep]
    exact Nat.ne_of_lt (h.older x hx)
  constructor
  case stored =>
    rw [take_distinctKeys_concat _ (h.not_mem_take hnone), ← h.size_eq hcache, ← hkeys, hkeep]
    refine ⟨_, rfl, ?_, ?_⟩
    · split <;> rfl
    · split
      · exact List.reverse_cons
      · rfl
  case kept => exact fun k o ho => h.kept_keep hnone tree ho
  case older =>
    intro x hx
    rw [hkeep]
    rcases List.mem_append.1 hx with hx | hx
    · exact Nat.lt_succ_of_lt (h.older x hx)
    · rw [List.mem_singleton.1 hx, hkeep]
      exact Nat.lt_succ_self _
  case apart =>
    intro x hx y hy hbirth
    rcases List.mem_append.1 hx with hx | hx <;> rcases List.mem_append.1 hy with hy | hy
    · exact h.apart x hx y hy hbirth
    · rw [List.mem_singleton.1 hy] at hbirth
      exact absurd hbirth (hyounger hx)
    · rw [List.mem_singleton.1 hx] at hbirth
      exact absurd hbirth.symm (hyounger hy)
    · rw [List.mem_singleton.1 hx, List.mem_singleton.1 hy]
  case twice =>
    -- No object from before is the new one, so only the pairs from before can share one; theirs is still there.
    refine List.pairwise_append.2 ⟨h.twice.imp fun hxy hbirth => ?_, List.pairwise_singleton _ _,
      fun x hx y hy hbirth => ?_⟩
    · obtain ⟨o, ho⟩ := hxy hbirth
      exact ⟨o, find?_keep_of_eq_some hcache hnone tree ho⟩
    · rw [List.mem_singleton.1 hy] at hbirth
      exact absurd hbirth (hyounger hx)

end Memory

/-! ### Compilations one after the other -/

namespace Pipeline

/-- A call of `compile` by an evaluator with its own preferences. -/
structure Compilation where
  preferences : Preferences
  expression : String
  request : Option String := none
  deriving DecidableEq, Repr, Inhabited

def Compilation.key (call : Compilation) : CacheKey := keyOf call.preferences call.expression

/-- The run of `compile` for the call: its result, and what it leaves behind. -/
def Compilation.run (call : Compilation) (m : Memory) : Except PipelineError TreeObject × Option String × Memory :=
  (compile call.preferences call.expression).run call.request m

structure Sharing where
  /-- The compilations that have ended, with their results, in their order. -/
  past : List (Compilation × Except PipelineError TreeObject) := []
  memory : Memory

namespace Sharing

/-- Before the first compilation, with an empty cache of the `capacity`. -/
def start (capacity : Nat) (m : Memory) : Sharing where
  memory := { m with cache := some (.ofCapacity capacity) }

/-- The state after one more `call`. -/
def after (s : Sharing) (call : Compilation) : Sharing :=
  let (result, _, memory) := call.run s.memory
  { past := s.past ++ [(call, result)], memory }

/-- The state after more `calls`, one after the other. -/
def afterAll (s : Sharing) (calls : List Compilation) : Sharing := calls.foldl after s

/-- The key and the object of a compilation that ended with `.ok`. -/
def success? (ended : Compilation × Except PipelineError TreeObject) : Option (CacheKey × TreeObject) :=
  match ended.2 with
  | .ok object => some (ended.1.key, object)
  | .error _ => none

/-- `success?` of all that is `past`. -/
def compiled (s : Sharing) : List (CacheKey × TreeObject) := s.past.filterMap success?

/-- The `distinctKeys` of the compilations that succeeded. -/
def keys (s : Sharing) : List CacheKey := distinctKeys s.compiled

variable {s : Sharing} {capacity : Nat}

theorem compiled_after (s : Sharing) (call : Compilation) :
    (s.after call).compiled = s.compiled ++ (success? (call, (call.run s.memory).1)).toList := by
  rw [compiled, after, List.filterMap_append, List.filterMap_cons, List.filterMap_nil]
  cases success? (call, (call.run s.memory).1) <;> rfl

/-- **One compilation** keeps `Holds`. -/
theorem holds_after (h : s.memory.Holds capacity s.compiled) (call : Compilation) :
    (s.after call).memory.Holds capacity (s.after call).compiled := by
  obtain ⟨logged, hrun⟩ := exists_run_compile call.preferences call.expression call.request s.memory
  rw [compiled_after, after, Compilation.run, hrun]
  cases hfind : s.memory.find? (keyOf call.preferences call.expression) with
  | some object => exact (h.found hfind).log logged
  | none =>
    cases treeOf call.preferences call.expression with
    | error e =>
      show Memory.Holds capacity (s.compiled ++ []) { s.memory with logged }
      rw [List.append_nil]
      exact h.log logged
    | ok tree => exact (h.keep hfind tree).log logged

/-- **Any compilations** keep `Holds`, with the capacity cut to `Limits.cached`. -/
theorem holds_afterAll (capacity : Nat) (m : Memory) (calls : List Compilation) :
    ((start capacity m).afterAll calls).memory.Holds (min capacity Limits.cached)
      ((start capacity m).afterAll calls).compiled := by
  have h {s : Sharing} (hs : s.memory.Holds (min capacity Limits.cached) s.compiled) :
      (s.afterAll calls).memory.Holds (min capacity Limits.cached) (s.afterAll calls).compiled := by
    induction calls generalizing s with
    | nil => exact hs
    | cons call calls ih => exact ih (holds_after hs call)
  exact h (Memory.holds_nil _ m)

/-- `afterAll` appends the `calls` to `past`, in their order, with the trees that they come to without a cache. -/
theorem ends_afterAll (hs : s.memory.Sound) (calls : List Compilation) :
    (s.afterAll calls).memory.Sound ∧ ∃ ended, (s.afterAll calls).past = s.past ++ ended ∧
      ended.map Prod.fst = calls ∧
      ∀ x ∈ ended, x.2.map TreeObject.tree = treeOf x.1.preferences x.1.expression := by
  induction calls generalizing s with
  | nil => exact ⟨hs, [], (List.append_nil _).symm, rfl, List.forall_mem_nil _⟩
  | cons call calls ih =>
    obtain ⟨htree, hsound⟩ := Work.meets_run (meets_compile call.preferences call.expression) hs call.request
    obtain ⟨hafter, ended, hpast, hcalls, htrees⟩ := ih (s := s.after call) hsound
    refine ⟨hafter, (call, (call.run s.memory).1) :: ended, ?_, ?_, List.forall_mem_cons.2 ⟨htree, htrees⟩⟩
    · rw [List.append_cons]
      exact hpast
    · rw [List.map_cons, hcalls]

theorem sound_start (capacity : Nat) (m : Memory) : (start capacity m).memory.Sound := nofun

/-- If the expression of the `i`-th call has a tree, this call succeeded. -/
theorem exists_past_eq_ok (capacity : Nat) (m : Memory) {calls : List Compilation} {i : Nat} {call : Compilation}
    {tree : Expr} (hi : calls[i]? = some call) (htree : treeOf call.preferences call.expression = .ok tree) :
    ∃ a, ((start capacity m).afterAll calls).past[i]? = some (call, .ok a) := by
  obtain ⟨-, ended, hpast, rfl, htrees⟩ := ends_afterAll (sound_start capacity m) calls
  rw [hpast]
  rw [List.getElem?_map] at hi
  obtain ⟨⟨_, result⟩, hx, rfl⟩ := Option.map_eq_some_iff.1 hi
  have hresult := (htrees _ (List.mem_of_getElem? hx)).trans htree
  cases result with
  | error e => cases hresult
  | ok a => exact ⟨a, hx⟩

/-- `s.keys` does not get shorter. -/
theorem length_keys_le (hs : s.memory.Sound) (calls : List Compilation) :
    s.keys.length ≤ (s.afterAll calls).keys.length := by
  obtain ⟨-, ended, hpast, -⟩ := ends_afterAll hs calls
  rw [keys, keys, compiled, compiled, hpast, distinctKeys, distinctKeys, List.filterMap_append, List.map_append,
    List.eraseDups_append, List.length_append]
  exact Nat.le_add_right _ _

/-- The number of trees in the cache is `min capacity s.keys.length`. -/
theorem exists_size_eq (h : s.memory.Holds capacity s.compiled) :
    ∃ c, s.memory.cache = some c ∧ c.size = min capacity s.keys.length := by
  obtain ⟨c, hcache, -⟩ := h.stored
  refine ⟨c, hcache, ?_⟩
  rw [h.size_eq hcache, List.length_take, keys]

theorem mem_compiled {i : Nat} {call : Compilation} {a : TreeObject} (hi : s.past[i]? = some (call, .ok a)) :
    (call.key, a) ∈ s.compiled := List.mem_filterMap.2 ⟨_, List.mem_of_getElem? hi, rfl⟩

/-- If the `i`-th and the `j`-th call came to the same object, with `i < j`, the cache has one for their key. -/
theorem exists_find?_of_lt (h : s.memory.Holds capacity s.compiled) {i j : Nat} (hlt : i < j)
    {call call' : Compilation} {a b : TreeObject} (hi : s.past[i]? = some (call, .ok a))
    (hj : s.past[j]? = some (call', .ok b)) (hbirth : a.birth = b.birth) :
    ∃ o, s.memory.find? call.key = some o := by
  obtain ⟨hilt, hi⟩ := List.getElem?_eq_some_iff.1 hi
  obtain ⟨hjlt, hj⟩ := List.getElem?_eq_some_iff.1 hj
  have htwice := List.pairwise_iff_getElem.1 (List.pairwise_filterMap.1 h.twice) i j hilt hjlt hlt
  rw [hi, hj] at htwice
  exact htwice _ rfl _ rfl hbirth

/-- **Sharing.** Take any `calls` of `compile` one after the other, by evaluators with any preferences, that share a
cache which is empty at first.
* The number of trees in it is the number of distinct keys of the calls that succeeded, up to the capacity, and
  never gets smaller.
* Two calls come to the very same object (`birth`) exactly if they have the same key, and this key is among the
  `first` of the distinct ones, as many as there is room for. -/
theorem objects_afterAll (capacity : Nat) (m : Memory) (calls : List Compilation) :
    let s := (start capacity m).afterAll calls
    let first := s.keys.take (min capacity Limits.cached)
    s.past.map Prod.fst = calls ∧
    (∃ c, s.memory.cache = some c ∧ c.size = min (min capacity Limits.cached) s.keys.length ∧
      ∀ more, ∃ c', (s.afterAll more).memory.cache = some c' ∧ c.size ≤ c'.size) ∧
    ∀ (i j : Nat) (call call' : Compilation) (a b : TreeObject), i ≠ j →
      s.past[i]? = some (call, .ok a) → s.past[j]? = some (call', .ok b) →
      (a.birth = b.birth ↔ call.key = call'.key ∧ call.key ∈ first) ∧ (a.birth = b.birth → a = b) := by
  intro s first
  have hs : s.memory.Holds (min capacity Limits.cached) s.compiled := holds_afterAll capacity m calls
  obtain ⟨hsound, ended, hpast, hcalls, -⟩ := ends_afterAll (sound_start capacity m) calls
  refine ⟨?_, ?_, fun i j call call' a b hij hi hj => ?_⟩
  · rw [hpast]
    exact hcalls
  · obtain ⟨c, hcache, hsize⟩ := exists_size_eq hs
    refine ⟨c, hcache, hsize, fun more => ?_⟩
    -- The cache after more calls is again one after calls from the start.
    have happend : s.afterAll more = (start capacity m).afterAll (calls ++ more) := List.foldl_append.symm
    obtain ⟨c', hcache', hsize'⟩ := exists_size_eq (holds_afterAll capacity m (calls ++ more))
    have hkeys : s.keys.length ≤ (s.afterAll more).keys.length := length_keys_le hsound more
    rw [happend] at hkeys ⊢
    exact ⟨c', hcache', by omega⟩
  · -- The invariant has an object with its key, so that equal births give both.
    have hpair : a.birth = b.birth → (call.key, a) = (call'.key, b) :=
      hs.apart _ (mem_compiled hi) _ (mem_compiled hj)
    refine ⟨⟨fun hbirth => ?_, fun ⟨hkey, hfirst⟩ => ?_⟩, fun hbirth => (Prod.mk.inj (hpair hbirth)).2⟩
    · have hkey : call.key = call'.key := (Prod.mk.inj (hpair hbirth)).1
      refine ⟨hkey, hs.exists_find?_iff.1 ?_⟩
      -- An object of two calls is in the cache, and its key is then one of the first.
      rcases Nat.lt_or_gt_of_ne hij with hlt | hlt
      · exact exists_find?_of_lt hs hlt hi hj hbirth
      · rw [hkey]
        exact exists_find?_of_lt hs hlt hj hi hbirth.symm
    · obtain ⟨o, ho⟩ := hs.exists_find?_iff.2 hfirst
      -- For a key in the cache there is one object only.
      obtain ⟨-, hunique⟩ := hs.kept _ o ho
      rw [hunique a (mem_compiled hi), hunique b (hkey ▸ mem_compiled hj)]

/-- The derivation of `a OR b`. -/
def eitherDerivation : Grammar.Derivation .disjunction :=
  .disjunction (.conjunction (.plain (.identifier "a")) .andNil)
    (.orCons (.conjunction (.plain (.identifier "b")) .andNil) .orNil)

/-- The derivation of `c`. -/
def singleDerivation : Grammar.Derivation .disjunction :=
  .disjunction (.conjunction (.plain (.identifier "c")) .andNil) .orNil

/-- Four compilations, the first two of `a or b` and `a OR b`. -/
def respelled : List Compilation :=
  [⟨.strict, "a or b", none⟩, ⟨.strict, "a OR b", none⟩, ⟨.strict, "c", none⟩, ⟨.strict, "c", none⟩]

/-- With room for one tree, the first two of `respelled` share theirs, and the others do not. -/
theorem objects_afterAll_respelled : ∃ a b c d : TreeObject,
    let past := ((start 1 {}).afterAll respelled).past
    past[0]? = some (⟨.strict, "a or b", none⟩, .ok a) ∧ past[1]? = some (⟨.strict, "a OR b", none⟩, .ok b) ∧
      past[2]? = some (⟨.strict, "c", none⟩, .ok c) ∧ past[3]? = some (⟨.strict, "c", none⟩, .ok d) ∧
      a.birth = b.birth ∧ c.birth ≠ d.birth := by
  obtain ⟨-, -, hobjects⟩ := objects_afterAll 1 {} respelled
  have hor : treeOf .strict "a or b" = .ok eitherDerivation.value :=
    (compileExpression_eq_treeOf _).symm.trans
      (compileExpression_of_scan (q := ⟨6, 1, 7⟩) (by decide +kernel) (by decide +kernel) (by decide) (by decide))
  have hOR : treeOf .strict "a OR b" = .ok eitherDerivation.value :=
    (compileExpression_eq_treeOf _).symm.trans
      (compileExpression_of_scan (q := ⟨6, 1, 7⟩) (by decide +kernel) (by decide +kernel) (by decide) (by decide))
  have hc : treeOf .strict "c" = .ok singleDerivation.value :=
    (compileExpression_eq_treeOf _).symm.trans
      (compileExpression_of_scan (q := ⟨1, 1, 2⟩) (by decide +kernel) (by decide +kernel) (by decide) (by decide))
  obtain ⟨a, ha⟩ := @exists_past_eq_ok 1 {} respelled 0 _ _ rfl hor
  obtain ⟨b, hb⟩ := @exists_past_eq_ok 1 {} respelled 1 _ _ rfl hOR
  obtain ⟨c, hc'⟩ := @exists_past_eq_ok 1 {} respelled 2 _ _ rfl hc
  obtain ⟨d, hd⟩ := @exists_past_eq_ok 1 {} respelled 3 _ _ rfl hc
  have hfirst : ((start 1 {}).afterAll respelled).keys.take (min 1 Limits.cached) = [⟨true, "a OR b"⟩] := by
    obtain ⟨ended, hpast⟩ := List.head?_eq_some_iff.1 (List.head?_eq_getElem?.trans ha)
    rw [keys, compiled, hpast, List.filterMap_cons, distinctKeys]
    show ((keyOf .strict "a or b" :: (ended.filterMap success?).map Prod.fst).eraseDups).take 1 = _
    rw [List.eraseDups_cons, List.take_succ_cons, List.take_zero]
    decide +kernel
  refine ⟨a, b, c, d, ha, hb, hc', hd, ?_, fun hbirth => ?_⟩
  · refine (hobjects 0 1 _ _ a b (by decide) ha hb).1.2 ⟨by decide +kernel, ?_⟩
    rw [hfirst]
    decide +kernel
  · obtain ⟨-, hmem⟩ := (hobjects 2 3 _ _ c d (by decide) hc' hd).1.1 hbirth
    rw [hfirst] at hmem
    revert hmem
    decide +kernel

end Sharing

end Pipeline

end BoolCalc
