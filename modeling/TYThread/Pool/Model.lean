import Mathlib.Algebra.Group.Int.Defs
import Mathlib.Algebra.Group.Nat.Defs
import Mathlib.Data.Int.Notation
import Mathlib.Data.Nat.Notation
import Mathlib.Logic.Function.Basic

/-!
# The object pool of `ObjectPool.hh`

A pool hands out entries of fixed size. Its entries live in arenas, one for each layer, and the free
entries of a layer are linked through their own first bytes. A full pool grows by a layer, and a
layer on top that is not in use is given back to the system. An entry that is released through
another pool goes to that pool's cache, and from there to its layer, together with others.

Each function below is the body of the function of the same name with its lock taken.

## Memory

A pointer is an arena and an offset in bytes. An access to an arena that has been deleted has no
result, and neither has one outside of an array. Every function that follows a pointer returns an
`Option`, and `none` means that the program has left defined behaviour. The allocator is a
parameter: `new` gives the arena that it is told to give, or throws.

## Integers

`current_size` is an `int`, and `pool_init_size` and `enlarge_rate` are of type `size_t`, so the
size of a layer is computed as a `size_t` and narrowed. The counters of the caches are taken as
unbounded.
-/

namespace TYThread

/-! ## Entries -/

structure Ptr where
  arena : ℕ
  offset : ℕ
deriving DecidableEq, Repr

/-- A `FakeEntry`, a union: the object or, while the entry is free or cached, the link `next`. The
field `combined_info` lies behind the bytes of the object. -/
structure FakeEntry where
  next : Option Ptr
  combinedInfo : ℕ
deriving DecidableEq, Repr

/-- How the fields of a `FakeEntry<T>` lie in memory. -/
structure EntryLayout where
  /-- `sizeof(T)`. -/
  sizeofT : ℕ
  /-- What `combined_info` holds after `next` has been written, if the two overlap. -/
  infoOf : Option Ptr → ℕ
  /-- What `next` holds after `combined_info` has been written, if the two overlap. -/
  nextOf : ℕ → Option Ptr → Option Ptr
  /-- What is found in new memory. -/
  fresh : FakeEntry

/-- The number of values of a `size_t`. -/
def sizeRange : ℕ := 2 ^ 64

namespace EntryLayout

variable (L : EntryLayout)

/-- The offset of `combined_info`, an `unsigned`. -/
def infoOffset : ℕ := (L.sizeofT + 3) / 4 * 4

/-- `next` has the first eight bytes. -/
def overlap : Bool := L.infoOffset < 8

/-- `sizeof(FakeEntry<T>)`. -/
def size : ℕ := (max 8 (L.infoOffset + 4) + 7) / 8 * 8

/-- `&arena[i]`. -/
def entry (arena i : ℕ) : Ptr := ⟨arena, i * L.size⟩

/-- `e.next = q`. -/
def setNext (e : FakeEntry) (q : Option Ptr) : FakeEntry where
  next := q
  combinedInfo := if L.overlap then L.infoOf q else e.combinedInfo

/-- `set_id_and_layer(e, id, layer)`. -/
def setIdAndLayer (e : FakeEntry) (id layer : ℕ) : FakeEntry where
  next := if L.overlap then L.nextOf ((id * 2 ^ 16) % 2 ^ 32 ||| layer) e.next else e.next
  combinedInfo := (id * 2 ^ 16) % 2 ^ 32 ||| layer

end EntryLayout

/-- `read_id(e)`. -/
def FakeEntry.readId (e : FakeEntry) : ℕ := e.combinedInfo >>> 16

/-- `read_layer(e)`. -/
def FakeEntry.readLayer (e : FakeEntry) : ℕ := e.combinedInfo &&& 0xFFFF

/-- The entries of the arenas that are there. -/
abbrev Mem := Ptr → Option FakeEntry

namespace Mem

variable (L : EntryLayout) (m : Mem)

/-- The link of an entry. -/
def nextOf (ptr : Ptr) : Option (Option Ptr) := (m ptr).map FakeEntry.next

/-- `ptr->next = q`. -/
def setNext (ptr : Ptr) (q : Option Ptr) : Option Mem := do
  let e ← m ptr
  return Function.update m ptr (some (L.setNext e q))

/-- `set_id_and_layer(ptr->fakeT_, id, layer)`. -/
def setIdAndLayer (ptr : Ptr) (id layer : ℕ) : Option Mem := do
  let e ← m ptr
  return Function.update m ptr (some (L.setIdAndLayer e id layer))

/-- `new FakeEntry<T>[sz]`, at an arena that is not in use. -/
def newArena (arena sz : ℕ) : Mem := fun ptr ↦
  if ptr.arena = arena then
    if ptr.offset % L.size = 0 ∧ ptr.offset / L.size < sz then some L.fresh else none
  else m ptr

/-- `delete[] arena`. -/
def deleteArena (arena : ℕ) : Mem := fun ptr ↦ if ptr.arena = arena then none else m ptr

/-- The loop of the constructor of `ObjectLayer`: the first `n` entries are linked to the next. -/
def linkEntries (arena : ℕ) : ℕ → Mem → Option Mem
  | 0, m => some m
  | n + 1, m => do
    let m ← linkEntries arena n m
    setNext L m (L.entry arena n) (some (L.entry arena (n + 1)))

end Mem

/-! ## `PerLayerCache` and `ObjectLayer` -/

structure PerLayerCache where
  head : Option Ptr := none
  tail : Option Ptr := none
  numCached : ℕ := 0
deriving DecidableEq, Repr

/-- What `my_release` of an `ObjectLayer` returns. -/
inductive ReleaseState
  | notHere
  | hereButNotMultiple
  | notInUseAfter
  | stillInUseAfter
deriving DecidableEq, Repr

structure ObjectLayer where
  arena : ℕ
  head : Option Ptr
  /-- In entries, not in bytes. -/
  arenaCap : ℕ
  used : ℕ
deriving DecidableEq, Repr

/-- `u -= n` on a `size_t`. -/
def sizeSub (u n : ℕ) : ℕ := (u + (sizeRange - n % sizeRange)) % sizeRange

namespace ObjectLayer

variable (L : EntryLayout)

/-- The constructor, when the arena has been allocated. -/
def new (m : Mem) (arena sz : ℕ) : Option (Mem × ObjectLayer) := do
  if sz = 0 then none
  else
    let m ← Mem.linkEntries L arena (sz - 1) (m.newArena L arena sz)
    let m ← m.setNext L (L.entry arena (sz - 1)) none
    return (m, { arena, head := some (L.entry arena 0), arenaCap := sz, used := 0 })

variable (ly : ObjectLayer)

def isInUse : Bool := ly.used != 0

/-- `my_alloc`: the layer afterwards, and the entry or a null pointer. -/
def myAlloc (m : Mem) : Option (ObjectLayer × Option Ptr) :=
  match ly.head with
  | none => some (ly, none)
  | some res => do
    let e ← m res
    return ({ ly with head := e.next, used := (ly.used + 1) % sizeRange }, some res)

/-- `used == 0 ? NotInUseAfter : StillInUseAfter`. -/
def stateAfter : ReleaseState := if ly.used = 0 then .notInUseAfter else .stillInUseAfter

/-- `my_release(ptr)`. -/
def myRelease (m : Mem) (p : Option Ptr) : Option (Mem × ObjectLayer × ReleaseState) :=
  match p with
  | none => some (m, ly, ly.stateAfter)
  | some ptr =>
    if ptr.arena ≠ ly.arena ∨ ly.arenaCap * L.size ≤ ptr.offset then some (m, ly, .notHere)
    else if ptr.offset % L.size ≠ 0 then some (m, ly, .hereButNotMultiple)
    else do
      let m ← m.setNext L ptr ly.head
      let ly := { ly with head := some ptr, used := sizeSub ly.used 1 }
      return (m, ly, ly.stateAfter)

/-- `my_release(cache)`. The cache is reset. -/
def myReleaseCache (m : Mem) (cache : PerLayerCache) :
    Option (Mem × ObjectLayer × ReleaseState) := do
  let tail ← cache.tail
  let m ← m.setNext L tail ly.head
  let ly := { ly with head := cache.head, used := sizeSub ly.used cache.numCached }
  return (m, ly, ly.stateAfter)

end ObjectLayer

/-! ## `ObjectPool` -/

/-- The value of an `int` as a `size_t`. -/
def sizeOfInt (n : ℤ) : ℕ := (n % (sizeRange : ℤ)).toNat

/-- A `size_t` narrowed to `int`. -/
def intOfSize (n : ℕ) : ℤ := (n : ℤ).bmod (2 ^ 32)

/-- `cache_reclaim_period` is left out: the daemon may call `do_period_cleanup` at any time. -/
structure ObjectPoolConfig where
  numOfThread : ℕ
  poolInitSize : ℕ
  enlargeRate : ℕ
  maxTotalCached : ℤ := 1024

/-- The template argument `NLayers`. -/
def ObjectPool.NLayers : ℕ := 32

/-- The members that the constructor copies from the configuration are in `config`. -/
structure ObjectPool where
  id : ℕ
  config : ObjectPoolConfig
  layers : ℕ → Option ObjectLayer := fun _ ↦ none
  currentLayer : ℕ := 0
  currentSize : ℤ := intOfSize config.poolInitSize
  caches : ℕ → ℕ → PerLayerCache := fun _ _ ↦ {}
  totalCached : ℕ := 0

/-- `size *= rate`. -/
def enlarge (size : ℤ) (rate : ℕ) : ℤ := intOfSize (sizeOfInt size * rate % sizeRange)

/-- `size /= rate`. -/
def shrink (size : ℤ) (rate : ℕ) : ℤ := intOfSize (sizeOfInt size / rate)

/-- `new FakeEntry<T>[sz]` throws when the array is larger than any object can be, and when there is
no memory. -/
def grant (L : EntryLayout) (arena : Option ℕ) (sz : ℕ) : Option ℕ :=
  if sz * L.size < 2 ^ 63 then arena else none

namespace ObjectPool

variable (L : EntryLayout) (p : ObjectPool)

def setLayer (k : ℕ) (ly : Option ObjectLayer) : ObjectPool :=
  { p with layers := Function.update p.layers k ly }

def setCache (i j : ℕ) (cache : PerLayerCache) : ObjectPool :=
  { p with caches := Function.update p.caches i (Function.update (p.caches i) j cache) }

/-- The loop of `my_alloc` over the layers below `n`, the highest one first: the layer that has a
free entry, as it is afterwards, and the entry. -/
def scan (m : Mem) (layers : ℕ → Option ObjectLayer) : ℕ → Option (Option (ℕ × ObjectLayer × Ptr))
  | 0 => some none
  | i + 1 => do
    let ly ← layers i
    let (ly, res) ← ly.myAlloc m
    match res with
    | some ptr => some (some (i, ly, ptr))
    | none => scan m layers i

/-- `layers[++current_layer] = std::make_unique<ObjectLayer<T>>(current_size);` and what follows it
in `my_alloc`, given the arena that is allocated. The result holds the entry, or nothing when the
construction of the layer has thrown. In C++14 it is not specified whether `layers[++current_layer]`
is evaluated before the layer is made (`indexFirst`). -/
def addLayer (indexFirst : Bool) (arena : Option ℕ) (m : Mem) :
    Option (Mem × ObjectPool × Option Ptr) :=
  match grant L arena (sizeOfInt p.currentSize) with
  | none =>
    if indexFirst then
      if p.currentLayer + 1 < NLayers then
        some (m, { p with currentLayer := p.currentLayer + 1 }, none)
      else none
    else some (m, p, none)
  | some arena =>
    if p.currentLayer + 1 < NLayers then do
      let (m, ly) ← ObjectLayer.new L m arena (sizeOfInt p.currentSize)
      let (ly, res) ← ly.myAlloc m
      let res ← res
      let m ← m.setIdAndLayer L res p.id (p.currentLayer + 1)
      return (m, { p with currentLayer := p.currentLayer + 1 }.setLayer (p.currentLayer + 1)
        (some ly), some res)
    else none

/-- `my_alloc`. -/
def myAlloc (indexFirst : Bool) (arena : Option ℕ) (m : Mem) :
    Option (Mem × ObjectPool × Option Ptr) := do
  match ← scan m p.layers (p.currentLayer + 1) with
  | some (i, ly, res) =>
    let m ← m.setIdAndLayer L res p.id i
    return (m, p.setLayer i (some ly), some res)
  | none =>
    -- all layers are full
    addLayer L { p with currentSize := enlarge p.currentSize p.config.enlargeRate } indexFirst
      arena m

/-- The destructor of the layer, if there is one. -/
def deleteLayer (m : Mem) : Option ObjectLayer → Mem
  | none => m
  | some ly => m.deleteArena ly.arena

/-- `layers[layer] = nullptr; current_layer = layer - 1; current_size /= enlarge_rate;`. -/
def dropLayer (m : Mem) (layer : ℕ) : Mem × ObjectPool :=
  (deleteLayer m (p.layers layer),
    { p.setLayer layer none with
      currentLayer := layer - 1
      currentSize := shrink p.currentSize p.config.enlargeRate })

/-- The loop of `remove_layer_if_not_in_use`, when `current_layer` is the number given. -/
def trim : ℕ → Mem → ObjectPool → Option (Mem × ObjectPool)
  | 0, m, p => some (m, p)
  | n + 1, m, p => do
    let ly ← p.layers (n + 1)
    if ly.isInUse then return (m, p)
    else
      let (m, p) := p.dropLayer m (n + 1)
      trim n m p

def removeLayerIfNotInUse (m : Mem) (layer : ℕ) (state : ReleaseState) :
    Option (Mem × ObjectPool) :=
  if state = .notInUseAfter ∧ 0 < layer ∧ layer = p.currentLayer then
    let (m, p) := p.dropLayer m layer
    trim p.currentLayer m p
  else some (m, p)

/-- `my_release(layer, cache)`. -/
def myReleaseCache (m : Mem) (layer : ℕ) (cache : PerLayerCache) : Option (Mem × ObjectPool) := do
  let ly ← p.layers layer
  let (m, ly, res) ← ly.myReleaseCache L m cache
  (p.setLayer layer (some ly)).removeLayerIfNotInUse m layer res

/-- The first half of `my_release(ptr)`, for an entry of another pool: it is put into the cache. -/
def cachePtr (m : Mem) (ptr : Ptr) : Option (Mem × ObjectPool) := do
  let e ← m ptr
  if e.readId < p.config.numOfThread ∧ e.readLayer < NLayers then
    let layer := p.caches e.readId e.readLayer
    let (m, layer) ←
      if layer.tail ≠ none then do
        let m ← m.setNext L ptr layer.head
        some (m, { layer with head := some ptr })
      else some (m, { layer with head := some ptr, tail := some ptr })
    let layer := { layer with numCached := layer.numCached + 1 }
    return (m, { p.setCache e.readId e.readLayer layer with totalCached := p.totalCached + 1 })
  else none

/-- The second half of `my_release(ptr)`, for an entry of this pool. -/
def myRelease (m : Mem) (ptr : Ptr) : Option (Mem × ObjectPool) := do
  let e ← m ptr
  let ly ← p.layers e.readLayer
  let (m, ly, res) ← ly.myRelease L m (some ptr)
  (p.setLayer e.readLayer (some ly)).removeLayerIfNotInUse m e.readLayer res

end ObjectPool

/-! ## `ObjectPoolMediator` -/

/-- The pools of a mediator, and the calls that are going on in them. -/
structure Mediator where
  mem : Mem
  pools : ℕ → ObjectPool
  /-- The entries that have been handed out and not been released since. -/
  live : Ptr → Prop
  /-- The pool in whose `my_release` the entry is, between the two locks. -/
  returning : Ptr → Option ℕ
  /-- The next cache that `cleanup_all_cache` of the pool looks at, when it is running. Then
  `my_release_mut_` of the pool is held. -/
  cleaning : ℕ → Option (ℕ × ℕ)

namespace Mediator

variable (L : EntryLayout) (σ : Mediator)

def setPool (i : ℕ) (p : ObjectPool) : Mediator :=
  { σ with pools := Function.update σ.pools i p }

def setCleaning (i : ℕ) (at_ : Option (ℕ × ℕ)) : Mediator :=
  { σ with cleaning := Function.update σ.cleaning i at_ }

/-- The first `n` pools, with their arenas. -/
def build (cfg : ObjectPoolConfig) (arena : ℕ → ℕ) : ℕ → Option (Mem × (ℕ → ObjectPool))
  | 0 => some (fun _ ↦ none, fun i ↦ { id := i, config := cfg })
  | n + 1 => do
    let (m, pools) ← build cfg arena n
    let (m, ly) ← ObjectLayer.new L m (arena n) cfg.poolInitSize
    return (m, Function.update pools n ((pools n).setLayer 0 (some ly)))

/-- A mediator that has just been made. -/
def initial (cfg : ObjectPoolConfig) (arena : ℕ → ℕ) : Option Mediator := do
  let (mem, pools) ← build L cfg arena cfg.numOfThread
  return { mem, pools, live := fun _ ↦ False, returning := fun _ ↦ none, cleaning := fun _ ↦ none }

/-- The arena is not one of a layer. -/
def Unused (arena : ℕ) : Prop := ∀ i k ly, (σ.pools i).layers k = some ly → ly.arena ≠ arena

/-- `caches[i][j]` of pool `id` is handed back to pool `i`, as `mediator.real_my_release(i, j, ..)`
does it. -/
def handBack (id i j : ℕ) : Option Mediator := do
  let cache := (σ.pools id).caches i j
  let (mem, p) ← (σ.pools i).myReleaseCache L σ.mem j cache
  let σ := { σ with mem }.setPool i p
  return σ.setPool id ((σ.pools id).setCache i j {})

/-- One round of the loops of `cleanup_all_cache` of pool `id`, at `caches[i][j]`. -/
def cleanNext (id i j : ℕ) : Option Mediator :=
  if (σ.pools id).config.numOfThread ≤ i then
    some ((σ.setPool id { σ.pools id with totalCached := 0 }).setCleaning id none)
  else if i = id ∨ ObjectPool.NLayers ≤ j then some (σ.setCleaning id (some (i + 1, 0)))
  else if ((σ.pools id).caches i j).numCached > 0 then do
    let σ ← σ.handBack L id i j
    return σ.setCleaning id (some (i, j + 1))
  else some (σ.setCleaning id (some (i, j + 1)))

end Mediator

/-- What a step is, seen from outside. -/
inductive PoolLabel
  /-- `my_alloc(id)` returns `ptr`. -/
  | alloc (id : ℕ) (ptr : Ptr)
  /-- `my_release(id, ptr)` is called. -/
  | release (id : ℕ) (ptr : Ptr)
  /-- `do_period_cleanup` of pool `id` is called. -/
  | period (id : ℕ)
  | other
deriving DecidableEq, Repr

/-- One step of a mediator: what one thread does while it holds one lock. Here `my_alloc` returns an
entry; a `my_alloc` that throws is a `ThrowingStep`. -/
inductive PoolStep (L : EntryLayout) (indexFirst : Bool) (σ : Mediator) :
    PoolLabel → Mediator → Prop
  | alloc {id : ℕ} {arena : Option ℕ} {m : Mem} {p : ObjectPool} {ptr : Ptr}
      (lt : id < (σ.pools id).config.numOfThread) (unused : ∀ a, arena = some a → σ.Unused a)
      (run : (σ.pools id).myAlloc L indexFirst arena σ.mem = some (m, p, some ptr)) :
      PoolStep L indexFirst σ (.alloc id ptr)
        (Mediator.setPool { σ with mem := m, live := fun q ↦ q = ptr ∨ σ.live q } id p)
  /-- The user writes to the object, whose bytes are those of `next`. -/
  | use {ptr : Ptr} {e : FakeEntry} {q : Option Ptr} (live : σ.live ptr)
      (kept : σ.returning ptr = none) (read : σ.mem ptr = some e) :
      PoolStep L indexFirst σ .other
        { σ with mem := Function.update σ.mem ptr (some { e with next := q }) }
  /-- `my_release` of an entry by its own pool, up to the end of the first block. -/
  | releaseOwn {id : ℕ} {ptr : Ptr} {e : FakeEntry} (lt : id < (σ.pools id).config.numOfThread)
      (live : σ.live ptr) (once : σ.returning ptr = none) (free : σ.cleaning id = none)
      (read : σ.mem ptr = some e) (own : e.readId = id) :
      PoolStep L indexFirst σ (.release id ptr)
        { σ with returning := Function.update σ.returning ptr (some id) }
  | returned {id : ℕ} {ptr : Ptr} {m : Mem} {p : ObjectPool} (here : σ.returning ptr = some id)
      (run : (σ.pools id).myRelease L σ.mem ptr = some (m, p)) :
      PoolStep L indexFirst σ .other
        (Mediator.setPool { σ with
          mem := m
          live := fun q ↦ q ≠ ptr ∧ σ.live q
          returning := Function.update σ.returning ptr none } id p)
  /-- `my_release` of an entry by another pool, up to the test whether its caches are full. -/
  | releaseForeign {id : ℕ} {ptr : Ptr} {e : FakeEntry} {m : Mem} {p : ObjectPool}
      (lt : id < (σ.pools id).config.numOfThread) (live : σ.live ptr)
      (once : σ.returning ptr = none) (free : σ.cleaning id = none) (read : σ.mem ptr = some e)
      (foreign : e.readId ≠ id) (run : (σ.pools id).cachePtr L σ.mem ptr = some (m, p)) :
      PoolStep L indexFirst σ (.release id ptr)
        ((Mediator.setPool { σ with mem := m, live := fun q ↦ q ≠ ptr ∧ σ.live q } id p).setCleaning
          id (if p.config.maxTotalCached < p.totalCached then some (0, 0) else none))
  | period {id : ℕ} (lt : id < (σ.pools id).config.numOfThread) (free : σ.cleaning id = none) :
      PoolStep L indexFirst σ (.period id)
        (σ.setCleaning id (if (σ.pools id).totalCached ≠ 0 then some (0, 0) else none))
  | clean {id i j : ℕ} {σ' : Mediator} (here : σ.cleaning id = some (i, j))
      (run : σ.cleanNext L id i j = some σ') : PoolStep L indexFirst σ .other σ'

/-- One step of a mediator whose allocator may fail. A call that throws has no label. -/
inductive ThrowingStep (L : EntryLayout) (indexFirst : Bool) (σ : Mediator) :
    Option PoolLabel → Mediator → Prop
  | step {l : PoolLabel} {σ' : Mediator} (step : PoolStep L indexFirst σ l σ') :
      ThrowingStep L indexFirst σ (some l) σ'
  /-- `my_alloc`, in which the construction of the new layer throws. -/
  | throws {id : ℕ} {arena : Option ℕ} {m : Mem} {p : ObjectPool}
      (lt : id < (σ.pools id).config.numOfThread)
      (run : (σ.pools id).myAlloc L indexFirst arena σ.mem = some (m, p, none)) :
      ThrowingStep L indexFirst σ none (Mediator.setPool { σ with mem := m } id p)

end TYThread
