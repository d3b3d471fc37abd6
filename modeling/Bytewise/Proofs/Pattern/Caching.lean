/-
# Bytewise.Proofs.Pattern.Caching -- what a cache hands out over its history

A history of requests is read twice: by the cache, and by two books that know
nothing of its entries.  `recent` lists the keys requested since the last flush,
and `limit` is the limit that was set last.

* `Step` says all that one request can do, and what follows is proved of its cases;
* `Sound c keys`: the entries of the cache are the keys of the book, once each, and
  every identity in them names a new pattern of its key.  One request keeps this
  (`Sound.step`), and so does a history (`Sound.run`);
* `pattern?_run`: an identity names the same pattern forever, so two requests for
  different keys never get the same one;
* `lookup_run`: as long as nothing is flushed, a key keeps its identity;
* `Outdated c id`: everything the cache still holds was issued after `id`.  A flush
  brings this about (`Outdated.of_flushes`), and no request ends it, so whoever asks
  after a flush gets a later identity.
-/
import Mathlib.Data.Finset.Card
import Bytewise.Pattern.Cache

namespace Bytewise.Pattern.Cache

set_option autoImplicit false

/-! ## Two books -/

def run (c : Cache) (requests : List Request) : Cache := requests.foldl apply c

/-- Does a request flush the cache: by clearing it, by changing the limit, or by asking for an absent
key when the cache is full? -/
def flushes (c : Cache) : Request → Bool
  | .get key => (c.entries.lookup key).isNone && c.size == c.capacity
  | .setMaxCells maxCells => c.maxCells != maxCells
  | .clear => true

/-- Does one of the requests flush the cache? -/
def flushed (c : Cache) : List Request → Bool
  | [] => false
  | request :: requests => c.flushes request || (c.apply request).flushed requests

/-- The key that a request asks for. -/
def Request.key? : Request → Option Key
  | .get key => some key
  | .setMaxCells _ => none
  | .clear => none

/-- The keys requested since the last flush, after one more request.  A request that flushes does so
before it asks for its key. -/
def keysAfter (c : Cache) (keys : List Key) (request : Request) : List Key :=
  request.key?.toList ++ if c.flushes request then [] else keys

/-- The keys requested since the last flush, where `keys` were requested before. -/
def recent (c : Cache) (keys : List Key) : List Request → List Key
  | [] => keys
  | request :: requests => (c.apply request).recent (c.keysAfter keys request) requests

def limitAfter (maxCells : Nat) : Request → Nat
  | .setMaxCells maxCells => maxCells
  | .get _ => maxCells
  | .clear => maxCells

/-- The limit that was set last. -/
def limit (requests : List Request) : Nat := requests.foldl limitAfter defaultMaxCells

/-- A new pattern of a key. -/
def Key.fresh (key : Key) (maxCells : Nat) : Pattern :=
  ofText key.text key.caseSensitive key.wildcard maxCells

theorem Key.eq_of_fresh_eq {key key' : Key} {maxCells maxCells' : Nat}
    (same : key.fresh maxCells = key'.fresh maxCells') : key = key' := by
  obtain ⟨text, caseSensitive, wildcard⟩ := key
  obtain ⟨text', caseSensitive', wildcard'⟩ := key'
  obtain ⟨rfl, rfl, rfl, -⟩ := ofText_inj.1 same
  rfl

/-! ## One request -/

section

variable {c c' : Cache} {request : Request} {key : Key} {keys : List Key} {id : Nat} {p : Pattern}

theorem lookup_eq_none_iff : c.entries.lookup key = none ↔ key ∉ c.entries.map Prod.fst := by
  rw [List.lookup_eq_none_iff, List.mem_map]
  constructor
  · rintro other ⟨entry, mem, rfl⟩
    simpa using other entry mem
  · intro absent entry mem
    simpa using fun same : key = entry.1 => absent ⟨entry, mem, same.symm⟩

theorem mem_of_lookup (found : c.entries.lookup key = some id) : (key, id) ∈ c.entries := by
  obtain ⟨before, after, split, -⟩ := List.lookup_eq_some_iff.1 found
  rw [split]
  simp

theorem get_of_found (found : c.entries.lookup key = some id) : c.get key = ⟨c, id, []⟩ := by
  simp [get, found]

/-- The cache after a request for an absent key. -/
def added (c : Cache) (key : Key) : Cache :=
  { c with entries := (key, c.issued.length) :: if c.isFull then [] else c.entries
           issued := c.issued ++ [key.fresh c.maxCells] }

theorem cache_get_of_absent (absent : c.entries.lookup key = none) :
    (c.get key).cache = c.added key := by
  simp only [get, absent, makeRoom, added, Key.fresh]
  split <;> rfl

theorem id_get_of_absent (absent : c.entries.lookup key = none) :
    (c.get key).id = c.issued.length := by
  simp [get, absent]

/-- What a request hands out is what the cache holds for its key from then on. -/
theorem lookup_get (c : Cache) (key : Key) :
    (c.get key).cache.entries.lookup key = some (c.get key).id := by
  cases found : c.entries.lookup key with
  | none => simp [cache_get_of_absent found, id_get_of_absent found, added]
  | some id => rw [get_of_found found, found]

/-- All that a request can do to a cache. -/
inductive Step (c : Cache) (request : Request) : Cache → Prop
  /-- The key is there, or the limit stays the same. -/
  | idle (keep : c.flushes request = false) (limit : limitAfter c.maxCells request = c.maxCells)
      (present : ∀ key, request.key? = some key → key ∈ c.entries.map Prod.fst) :
      Step c request c
  /-- The cache is cleared, or the limit changes. -/
  | emptied (flush : c.flushes request = true) (unasked : request.key? = none) :
      Step c request { c with maxCells := limitAfter c.maxCells request, entries := [] }
  | added {key : Key} (asked : request = .get key) (absent : c.entries.lookup key = none) :
      Step c request (c.added key)

theorem step_apply (c : Cache) (request : Request) : Step c request (c.apply request) := by
  cases request with
  | get key =>
      cases found : c.entries.lookup key with
      | none =>
          rw [apply, cache_get_of_absent found]
          exact .added rfl found
      | some id =>
          rw [apply, get_of_found found]
          refine .idle (by simp [flushes, found]) rfl ?_
          rintro _ ⟨⟩
          exact List.mem_map.2 ⟨_, mem_of_lookup found, rfl⟩
  | setMaxCells maxCells =>
      by_cases same : c.maxCells = maxCells
      · rw [apply, setMaxCells, if_pos same]
        exact .idle (by simpa [flushes] using same) same.symm (by rintro _ ⟨⟩)
      · rw [apply, setMaxCells, if_neg same]
        exact .emptied (by simpa [flushes] using same) rfl
  | clear => exact .emptied rfl rfl

namespace Step

theorem capacity_eq (step : Step c request c') : c'.capacity = c.capacity := by
  cases step <;> rfl

theorem maxCells_eq (step : Step c request c') : c'.maxCells = limitAfter c.maxCells request := by
  cases step with
  | idle _ limit => exact limit.symm
  | emptied => rfl
  | added asked =>
      subst asked
      rfl

/-- Nothing that was issued is taken back. -/
theorem issued_grows (step : Step c request c') : c.issued <+: c'.issued := by
  cases step with
  | idle => exact List.prefix_rfl
  | emptied => exact List.prefix_rfl
  | added => exact List.prefix_append _ _

end Step

/-! ## What the cache holds -/

/-- The cache holds exactly `keys`, each with the identity of a new pattern of it. -/
structure Sound (c : Cache) (keys : List Key) : Prop where
  pos : 0 < c.capacity
  size_le : c.size ≤ c.capacity
  nodup : (c.entries.map Prod.fst).Nodup
  mem_iff : ∀ key, key ∈ c.entries.map Prod.fst ↔ key ∈ keys
  fresh : ∀ key id, (key, id) ∈ c.entries → c.pattern? id = some (key.fresh c.maxCells)

namespace Sound

/-- A request for an absent key flushes the cache exactly if there is no room. -/
theorem flushes_get (sound : Sound c keys) (absent : c.entries.lookup key = none) :
    c.flushes (.get key) = c.isFull := by
  have bound := sound.size_le
  have full : c.size = c.capacity ↔ c.capacity ≤ c.size := by omega
  rw [Bool.eq_iff_iff]
  simp [flushes, absent, isFull, full]

/-- A cache without entries is sound for no keys, whatever its limit. -/
theorem empty (pos : 0 < c.capacity) (none : c.entries = []) : Sound c [] where
  pos := pos
  size_le := by simp [size, none]
  nodup := by simp [none]
  mem_iff key := by simp [none]
  fresh key id mem := by simp [none] at mem

theorem ofCapacity (capacity : Nat) : Sound (ofCapacity capacity) [] :=
  empty (by simp [Cache.ofCapacity]) rfl

/-- A key that is in the book already may be written down again. -/
theorem repeated (sound : Sound c keys) (known : key ∈ keys) : Sound c (key :: keys) where
  pos := sound.pos
  size_le := sound.size_le
  nodup := sound.nodup
  mem_iff other := by
    rw [sound.mem_iff, List.mem_cons]
    constructor
    · exact .inr
    · rintro (rfl | mem)
      · exact known
      · exact mem
  fresh := sound.fresh

/-- A new key is added to a cache that has room for it. -/
theorem inserted (sound : Sound c keys) (room : c.size < c.capacity)
    (absent : key ∉ c.entries.map Prod.fst) :
    Sound { c with entries := (key, c.issued.length) :: c.entries
                   issued := c.issued ++ [key.fresh c.maxCells] } (key :: keys) where
  pos := sound.pos
  size_le := room
  nodup := List.nodup_cons.2 ⟨absent, sound.nodup⟩
  mem_iff other := by simp only [List.map_cons, List.mem_cons, sound.mem_iff other]
  fresh other id mem := by
    rcases List.mem_cons.1 mem with new | old
    · obtain ⟨rfl, rfl⟩ := Prod.mk.injEq .. ▸ new
      simp [pattern?]
    · have held := sound.fresh other id old
      have below := (List.getElem?_eq_some_iff.1 held).1
      rw [pattern?, List.getElem?_append_left below]
      exact held

theorem step (sound : Sound c keys) (step : Step c request c') :
    Sound c' (c.keysAfter keys request) := by
  cases step with
  | idle keep _ present =>
      rw [keysAfter, keep]
      cases asked : request.key? with
      | none => exact sound
      | some key => exact sound.repeated ((sound.mem_iff key).1 (present key asked))
  | emptied flush unasked =>
      rw [keysAfter, flush, unasked]
      exact empty sound.pos rfl
  | @added key asked absent =>
      subst asked
      rw [keysAfter, sound.flushes_get absent, Cache.added]
      cases full : c.isFull with
      | true =>
          exact (empty (c := { c with entries := [] }) sound.pos rfl).inserted sound.pos
            List.not_mem_nil
      | false =>
          have room : c.size < c.capacity := by simpa [isFull] using full
          exact sound.inserted room (lookup_eq_none_iff.1 absent)

theorem apply (sound : Sound c keys) (request : Request) :
    Sound (c.apply request) (c.keysAfter keys request) :=
  sound.step (step_apply c request)

theorem size_eq (sound : Sound c keys) : c.size = keys.toFinset.card := by
  have same : (c.entries.map Prod.fst).toFinset = keys.toFinset := by
    ext key
    rw [List.mem_toFinset, List.mem_toFinset, sound.mem_iff]
  rw [← same, List.toFinset_card_of_nodup sound.nodup, List.length_map, size]

/-- Whether a key was there or not, what is handed out for it is a new pattern of it. -/
theorem pattern?_get (sound : Sound c keys) (key : Key) :
    (c.get key).cache.pattern? (c.get key).id = some (key.fresh c.maxCells) := by
  have limit : (c.get key).cache.maxCells = c.maxCells := (step_apply c (.get key)).maxCells_eq
  have mem := mem_of_lookup (lookup_get c key)
  rw [← limit]
  exact (sound.apply (.get key)).fresh key _ mem

theorem get_of_mem (sound : Sound c keys) (mem : key ∈ keys) :
    c.flushes (.get key) = false ∧ (c.get key).cache = c ∧ (c.get key).events = [] := by
  have present : c.entries.lookup key ≠ none := by
    rw [Ne, lookup_eq_none_iff, not_not, sound.mem_iff]
    exact mem
  obtain ⟨id, found⟩ := Option.ne_none_iff_exists'.1 present
  simp [flushes, get_of_found found, found]

end Sound

/-! ## Which identities meet again -/

/-- A request that does not flush leaves a key its identity. -/
theorem Step.lookup_eq (step : Step c request c') (sound : Sound c keys)
    (keep : c.flushes request = false) (found : c.entries.lookup key = some id) :
    c'.entries.lookup key = some id := by
  cases step with
  | idle => exact found
  | emptied flush => simp [keep] at flush
  | @added other asked absent =>
      subst asked
      have ne : key ≠ other := by
        rintro rfl
        rw [found] at absent
        cases absent
      rw [sound.flushes_get absent] at keep
      simp [Cache.added, keep, List.lookup_cons, beq_eq_false_iff_ne.2 ne, found]

/-- All that the cache holds was issued after `id`. -/
structure Outdated (c : Cache) (id : Nat) : Prop where
  issued : id < c.issued.length
  later : ∀ key id', (key, id') ∈ c.entries → id < id'

namespace Outdated

theorem step (outdated : Outdated c id) (step : Step c request c') : Outdated c' id where
  issued := outdated.issued.trans_le step.issued_grows.length_le
  later key id' mem := by
    cases step with
    | idle => exact outdated.later key id' mem
    | emptied => cases mem
    | added =>
        rcases List.mem_cons.1 mem with new | old
        · obtain ⟨rfl, rfl⟩ := Prod.mk.injEq .. ▸ new
          exact outdated.issued
        · split at old
          · cases old
          · exact outdated.later key id' old

/-- A flush leaves nothing in the cache but what the same request puts there. -/
theorem of_flushes (sound : Sound c keys) (issued : id < c.issued.length)
    (flush : c.flushes request = true) (step : Step c request c') : Outdated c' id where
  issued := issued.trans_le step.issued_grows.length_le
  later key id' mem := by
    cases step with
    | idle keep => simp [keep] at flush
    | emptied => cases mem
    | added asked absent =>
        subst asked
        rw [sound.flushes_get absent] at flush
        simp only [Cache.added, flush, if_true, List.mem_singleton, Prod.mk.injEq] at mem
        rw [mem.2]
        exact issued

end Outdated

/-! ## Histories -/

theorem Sound.run (sound : Sound c keys) (requests : List Request) :
    Sound (run c requests) (c.recent keys requests) := by
  induction requests generalizing c keys with
  | nil => exact sound
  | cons request requests ih => exact ih (sound.apply request)

theorem capacity_run (c : Cache) (requests : List Request) :
    (run c requests).capacity = c.capacity := by
  induction requests generalizing c with
  | nil => rfl
  | cons request requests ih => exact (ih (c.apply request)).trans (step_apply c request).capacity_eq

theorem maxCells_run (c : Cache) (requests : List Request) :
    (run c requests).maxCells = requests.foldl limitAfter c.maxCells := by
  induction requests generalizing c with
  | nil => rfl
  | cons request requests ih =>
      rw [List.foldl_cons, ← (step_apply c request).maxCells_eq]
      exact ih (c.apply request)

theorem issued_grows_run (c : Cache) (requests : List Request) :
    c.issued <+: (run c requests).issued := by
  induction requests generalizing c with
  | nil => exact List.prefix_rfl
  | cons request requests ih =>
      exact (step_apply c request).issued_grows.trans (ih (c.apply request))

/-- What was handed out stays what it is. -/
theorem pattern?_run (handed : c.pattern? id = some p) (requests : List Request) :
    (run c requests).pattern? id = some p := by
  have below := (List.getElem?_eq_some_iff.1 handed).1
  obtain ⟨rest, append⟩ := issued_grows_run c requests
  rw [pattern?, ← append, List.getElem?_append_left below]
  exact handed

theorem lookup_run (found : c.entries.lookup key = some id) {requests : List Request}
    (keep : c.flushed requests = false) (sound : Sound c keys) :
    (run c requests).entries.lookup key = some id := by
  induction requests generalizing c keys with
  | nil => exact found
  | cons request requests ih =>
      simp only [flushed, Bool.or_eq_false_iff] at keep
      exact ih ((step_apply c request).lookup_eq sound keep.1 found) keep.2 (sound.apply request)

theorem Outdated.run (outdated : Outdated c id) (requests : List Request) :
    Outdated (run c requests) id := by
  induction requests generalizing c with
  | nil => exact outdated
  | cons request requests ih => exact ih (outdated.step (step_apply c request))

theorem Outdated.of_flushed (sound : Sound c keys) (issued : id < c.issued.length)
    {requests : List Request} (flush : c.flushed requests = true) :
    Outdated (Cache.run c requests) id := by
  induction requests generalizing c keys with
  | nil => cases flush
  | cons request requests ih =>
      simp only [flushed, Bool.or_eq_true] at flush
      rcases flush with now | later
      · exact (of_flushes sound issued now (step_apply c request)).run requests
      · exact ih (sound.apply request)
          (issued.trans_le (step_apply c request).issued_grows.length_le) later

/-- Two requests get the same identity exactly if they ask for the same key and nothing is flushed
after the first has been answered and before the second is. -/
theorem Sound.get_id_eq_iff (sound : Sound c keys) (key key' : Key) (between : List Request) :
    (c.get key).id = ((Cache.run (c.get key).cache between).get key').id ↔
      key = key' ∧ (c.get key).cache.flushed (between ++ [.get key']) = false := by
  have sound₁ : Sound (c.get key).cache _ := sound.apply (.get key)
  have split : Cache.run (c.get key).cache (between ++ [.get key']) =
      ((Cache.run (c.get key).cache between).get key').cache := by
    simp [Cache.run, Cache.apply]
  have handed := sound.pattern?_get key
  have held := lookup_get (Cache.run (c.get key).cache between) key'
  constructor
  · intro same
    have sameKey : key = key' := by
      have first := pattern?_run handed (between ++ [.get key'])
      have second := (sound₁.run between).pattern?_get key'
      rw [split, same, second, Option.some.injEq] at first
      exact (Key.eq_of_fresh_eq first).symm
    refine ⟨sameKey, Bool.eq_false_iff.2 fun flush => ?_⟩
    have issued := (List.getElem?_eq_some_iff.1 handed).1
    have outdated := Outdated.of_flushed sound₁ issued flush
    rw [split] at outdated
    exact Nat.ne_of_lt (outdated.later key' _ (mem_of_lookup held)) same
  · rintro ⟨rfl, keep⟩
    have kept := lookup_run (lookup_get c key) keep sound₁
    rw [split, held] at kept
    exact (Option.some.inj kept).symm

end

/-- **A cache is transparent, bounded and hands out stable identities.**  After any requests to a
cache of any capacity, zero standing for one: it holds as many patterns as different keys were
requested since the last flush, and no more than fit; a request gets a pattern equal to a new one
under the limit that was set last; it gets the same one as a later request exactly if the keys are the
same and nothing was flushed after the first and before the second was answered; a request for a key
the cache holds flushes nothing, changes nothing and reports nothing, however full the cache; and what
was handed out is never changed by later requests. -/
theorem run_transparent (capacity : Nat) (requests : List Request) :
    (run (ofCapacity capacity) requests).capacity = max capacity 1 ∧
    (run (ofCapacity capacity) requests).size =
      ((ofCapacity capacity).recent [] requests).toFinset.card ∧
    (run (ofCapacity capacity) requests).size ≤ max capacity 1 ∧
    (∀ key, let answer := (run (ofCapacity capacity) requests).get key
      answer.cache.pattern? answer.id =
        some (ofText key.text key.caseSensitive key.wildcard (limit requests))) ∧
    (∀ key between key', let first := (run (ofCapacity capacity) requests).get key
      let second := (run first.cache between).get key'
      first.id = second.id ↔ key = key' ∧ first.cache.flushed (between ++ [.get key']) = false) ∧
    (∀ key ∈ (ofCapacity capacity).recent [] requests,
      (run (ofCapacity capacity) requests).flushes (.get key) = false ∧
      ((run (ofCapacity capacity) requests).get key).cache = run (ofCapacity capacity) requests ∧
      ((run (ofCapacity capacity) requests).get key).events = []) ∧
    ∀ id p, (run (ofCapacity capacity) requests).pattern? id = some p →
      ∀ later, (run (ofCapacity capacity) (requests ++ later)).pattern? id = some p := by
  have sound := (Sound.ofCapacity capacity).run requests
  have limited : (run (ofCapacity capacity) requests).maxCells = limit requests :=
    maxCells_run (ofCapacity capacity) requests
  have bound : (run (ofCapacity capacity) requests).capacity = max capacity 1 :=
    capacity_run (ofCapacity capacity) requests
  refine ⟨bound, sound.size_eq, bound ▸ sound.size_le, ?_, ?_, ?_, ?_⟩
  · intro key
    rw [← limited]
    exact sound.pattern?_get key
  · intro key between key'
    exact sound.get_id_eq_iff key key' between
  · intro key mem
    exact sound.get_of_mem mem
  · intro id p handed later
    have split : run (ofCapacity capacity) (requests ++ later) =
        run (run (ofCapacity capacity) requests) later := by
      simp [run]
    rw [split]
    exact pattern?_run handed later

end Bytewise.Pattern.Cache
