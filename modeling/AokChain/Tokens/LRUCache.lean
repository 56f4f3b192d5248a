import AokChain.Lib.Recency
import Mathlib.Data.List.Nodup

/-!
# The LRU cache of tokens

`CLRUCache` of `tokens/tokentypes.h`, the cache `ptokensCache` of token data
is one of: a `std::list` of pairs from the most to the least recently used and
an `unordered_map` from each key to the iterator of its node.  A node carries
the address its iterators hold, so that the map can point into the list as the
source's does.  The representation invariant `Valid` says that the map is the
list's index with each key once; under it every operation refines the
operation of the recency list of `Lib/Recency`, and so the cache inherits the
recency list's run properties.
-/

namespace AokChain

/-- A node of `cacheItemsList`: the address its iterators hold, and its pair. -/
structure ListNode (K V : Type) where
  addr : ℕ
  item : K × V
  deriving DecidableEq, Repr

/-- `CLRUCache`: the list of pairs from the most to the least recently used, and
the map from each key to the iterator of its node.  `nextAddr` stands for the
allocator: the node `push_front` creates has an address no iterator held. -/
structure CLRUCache (K V : Type) where
  cacheItemsList : List (ListNode K V)
  cacheItemsMap : List (K × ℕ)
  maxSize : ℕ
  nextAddr : ℕ
  deriving DecidableEq, Repr

namespace CLRUCache

variable {K V : Type} [DecidableEq K]

/-- `CLRUCache(size_t max_size)`. -/
def new (maxSize : ℕ) : CLRUCache K V := ⟨[], [], maxSize, 0⟩

/-- `std::list::erase` at an iterator. -/
def eraseNode (a : ℕ) (l : List (ListNode K V)) : List (ListNode K V) := l.filter (·.addr ≠ a)

/-- `cacheItemsMap[key] = it`. -/
def assign (key : K) (a : ℕ) (m : List (K × ℕ)) : List (K × ℕ) := (key, a) :: OrderedMap.erase key m

/-- The first half of `Put`: the new pair pushed in front, and the key's old node
and map entry erased if it had one. -/
def pushFront (c : CLRUCache K V) (key : K) (value : V) : List (ListNode K V) × List (K × ℕ) :=
  let list := ⟨c.nextAddr, (key, value)⟩ :: c.cacheItemsList
  match OrderedMap.find? key c.cacheItemsMap with
  | some it => (eraseNode it list, OrderedMap.erase key c.cacheItemsMap)
  | none => (list, c.cacheItemsMap)

/-- The end of `Put`: the back node and its key's entry go where the map has
outgrown `maxSize`. -/
def evictBack (c : CLRUCache K V) : CLRUCache K V :=
  if c.cacheItemsMap.length > c.maxSize then
    match c.cacheItemsList.getLast? with
    | some last =>
      { c with cacheItemsList := c.cacheItemsList.dropLast,
               cacheItemsMap := OrderedMap.erase last.item.1 c.cacheItemsMap }
    | none => c
  else c

/-- `Put`: the map's entry of the key points at the new front node. -/
def put (c : CLRUCache K V) (key : K) (value : V) : CLRUCache K V :=
  let r := c.pushFront key value
  evictBack ⟨r.1, assign key c.nextAddr r.2, c.maxSize, c.nextAddr + 1⟩

def erase (c : CLRUCache K V) (key : K) : CLRUCache K V :=
  match OrderedMap.find? key c.cacheItemsMap with
  | some it => { c with cacheItemsList := eraseNode it c.cacheItemsList,
                        cacheItemsMap := OrderedMap.erase key c.cacheItemsMap }
  | none => c

/-- `std::list::splice` of the node at an iterator to the front. -/
def splice (a : ℕ) (l : List (ListNode K V)) : List (ListNode K V) :=
  l.filter (·.addr = a) ++ l.filter (·.addr ≠ a)

/-- `Get`: the value of the node the key's iterator points at, spliced to the
front; `none` in place of the value where the iterator points at no node. -/
def get (c : CLRUCache K V) (key : K) : Except String (Option V × CLRUCache K V) :=
  match OrderedMap.find? key c.cacheItemsMap with
  | none => throw "There is no such key in cache"
  | some it =>
    pure ((c.cacheItemsList.find? (·.addr = it)).map (·.item.2),
      { c with cacheItemsList := splice it c.cacheItemsList })

/-- `Exists`. -/
def existsKey (c : CLRUCache K V) (key : K) : Bool := (OrderedMap.find? key c.cacheItemsMap).isSome

/-- `Size`. -/
def size (c : CLRUCache K V) : ℕ := c.cacheItemsMap.length

/-- The cache after an access; a `Get` that throws changes nothing. -/
def access (c : CLRUCache K V) : Recency.Op K V → CLRUCache K V
  | .put k v => c.put k v
  | .get k =>
    match c.get k with
    | .ok r => r.2
    | .error _ => c
  | .erase k => c.erase k

def runOps (c : CLRUCache K V) (ops : List (Recency.Op K V)) : CLRUCache K V := ops.foldl access c

/-- The pairs of the list, first to last. -/
def items (l : List (ListNode K V)) : List (K × V) := l.map ListNode.item

/-- The map the list calls for: each node's key to its address. -/
def index (l : List (ListNode K V)) : List (K × ℕ) := l.map fun n => (n.item.1, n.addr)

/-- The representation invariant: the map is the list's index, the list holds
each key once, and its nodes have distinct addresses below the allocator. -/
structure Valid (c : CLRUCache K V) : Prop where
  perm_index : c.cacheItemsMap.Perm (index c.cacheItemsList)
  keys_nodup : (OrderedMap.keys (items c.cacheItemsList)).Nodup
  addrs_nodup : (c.cacheItemsList.map ListNode.addr).Nodup
  addr_lt : ∀ n ∈ c.cacheItemsList, n.addr < c.nextAddr

section Nodes

open OrderedMap

variable {l : List (ListNode K V)}

omit [DecidableEq K] in
theorem keys_index (l : List (ListNode K V)) : keys (index l) = keys (items l) := by
  simp [keys, index, items]

omit [DecidableEq K] in
theorem items_filter (p : K → Bool) (l : List (ListNode K V)) :
    items (l.filter fun n => p n.item.1) = (items l).filter fun e => p e.1 := by
  simp [items, List.filter_map, Function.comp_def]

omit [DecidableEq K] in
theorem index_filter (p : K → Bool) (l : List (ListNode K V)) :
    index (l.filter fun n => p n.item.1) = (index l).filter fun e => p e.1 := by
  simp [index, List.filter_map, Function.comp_def]

/-- An entry of the index is a node. -/
theorem find?_index_eq_some (hk : (keys (items l)).Nodup) {k : K} {a : ℕ} :
    find? k (index l) = some a ↔ ∃ v, (⟨a, (k, v)⟩ : ListNode K V) ∈ l := by
  rw [find?_eq_some_iff (by rwa [keys_index])]
  simp only [index, List.mem_map]
  constructor
  · rintro ⟨n, hn, heq⟩
    simp only [Prod.mk.injEq] at heq
    exact ⟨n.item.2, by obtain ⟨a', ⟨k', v'⟩⟩ := n; simp only at heq; rw [← heq.1, ← heq.2]; exact hn⟩
  · rintro ⟨v, hn⟩
    exact ⟨_, hn, rfl⟩

omit [DecidableEq K] in
/-- Where the index points a key at a node, that node is the one of the key and
the one of the address. -/
theorem node_iff (hk : (keys (items l)).Nodup) (ha : (l.map ListNode.addr).Nodup) {k : K} {a : ℕ} {v : V}
    (hn : (⟨a, (k, v)⟩ : ListNode K V) ∈ l) {n : ListNode K V} (hm : n ∈ l) :
    n.item.1 = k ↔ n.addr = a := by
  have hkeys : (l.map (Prod.fst ∘ ListNode.item)).Nodup := by simpa [keys, items] using hk
  constructor
  · intro hkey
    rw [List.inj_on_of_nodup_map hkeys hm hn (by simpa using hkey)]
  · intro haddr
    rw [List.inj_on_of_nodup_map ha hm hn haddr]

end Nodes

section Valid

open OrderedMap

variable {c : CLRUCache K V}

omit [DecidableEq K] in
theorem Valid.keys_map_nodup (hv : c.Valid) : (keys c.cacheItemsMap).Nodup :=
  (hv.perm_index.map Prod.fst).nodup_iff.mpr (by rw [← keys, keys_index]; exact hv.keys_nodup)

theorem Valid.find?_map (hv : c.Valid) (k : K) : find? k c.cacheItemsMap = find? k (index c.cacheItemsList) :=
  find?_perm hv.perm_index hv.keys_map_nodup k

/-- Erasing the node the key's iterator points at erases the key's node. -/
theorem Valid.eraseNode_eq (hv : c.Valid) {k : K} {it : ℕ} (h : find? k c.cacheItemsMap = some it) :
    eraseNode it c.cacheItemsList = c.cacheItemsList.filter fun n => n.item.1 ≠ k := by
  obtain ⟨w, hn⟩ := (find?_index_eq_some hv.keys_nodup).mp ((hv.find?_map k) ▸ h)
  unfold eraseNode
  refine List.filter_congr fun n hm => ?_
  simp only [ne_eq, node_iff hv.keys_nodup hv.addrs_nodup hn hm]

/-- A key without an entry has no node. -/
theorem Valid.key_ne (hv : c.Valid) {k : K} (h : find? k c.cacheItemsMap = none) :
    ∀ n ∈ c.cacheItemsList, n.item.1 ≠ k := by
  intro n hn heq
  have hmem : k ∈ keys (index c.cacheItemsList) := by
    rw [keys_index, ← heq]
    exact List.mem_map_of_mem (List.mem_map_of_mem hn)
  exact (find?_eq_none_iff k _).mp ((hv.find?_map k) ▸ h) hmem

/-- The first half of `Put` leaves the list with the new node in front of the
others of other keys, and the map a permutation of their index. -/
theorem Valid.pushFront_spec (hv : c.Valid) (k : K) (v : V) :
    (c.pushFront k v).1 = ⟨c.nextAddr, (k, v)⟩ :: c.cacheItemsList.filter (fun n => n.item.1 ≠ k) ∧
      (c.pushFront k v).2.Perm (OrderedMap.erase k (index c.cacheItemsList)) := by
  unfold pushFront
  cases hf : find? k c.cacheItemsMap with
  | some it =>
    obtain ⟨w, hn⟩ := (find?_index_eq_some hv.keys_nodup).mp ((hv.find?_map k) ▸ hf)
    -- the new node's address is no iterator's
    have hnew : c.nextAddr ≠ it := Nat.ne_of_gt (hv.addr_lt _ hn)
    refine ⟨?_, hv.perm_index.filter _⟩
    simp only [eraseNode, List.filter_cons, ne_eq, hnew, not_false_eq_true, decide_true, if_true]
    rw [← eraseNode, hv.eraseNode_eq hf]
  | none =>
    have habsent := hv.key_ne hf
    have hsame : c.cacheItemsList.filter (fun n => n.item.1 ≠ k) = c.cacheItemsList :=
      List.filter_eq_self.mpr fun n hn => by simpa using habsent n hn
    have herase : OrderedMap.erase k (index c.cacheItemsList) = index c.cacheItemsList :=
      List.filter_eq_self.mpr fun e he => by
        obtain ⟨n, hn, rfl⟩ := List.mem_map.mp he
        simpa using habsent n hn
    dsimp only
    rw [hsame, herase]
    exact ⟨rfl, hv.perm_index⟩

/-- The state `Put` leaves before its eviction: the map's entry of the key
points at the new front node. -/
def pushed (c : CLRUCache K V) (k : K) (v : V) : CLRUCache K V :=
  ⟨(c.pushFront k v).1, assign k c.nextAddr (c.pushFront k v).2, c.maxSize, c.nextAddr + 1⟩

theorem Valid.pushed (hv : c.Valid) (k : K) (v : V) :
    (c.pushed k v).Valid ∧ items (c.pushed k v).cacheItemsList = Recency.insertFront k v (items c.cacheItemsList) := by
  obtain ⟨hlist, hmap⟩ := hv.pushFront_spec k v
  have hitems : items (c.pushed k v).cacheItemsList = Recency.insertFront k v (items c.cacheItemsList) := by
    simp only [CLRUCache.pushed, hlist, items, List.map_cons]
    rw [← items, items_filter (fun j => decide (j ≠ k))]
    rfl
  refine ⟨⟨?_, ?_, ?_, ?_⟩, hitems⟩
  · -- the key's entry goes once, and the new one points at the front
    simp only [CLRUCache.pushed, hlist, assign, index, List.map_cons]
    refine List.Perm.cons _ ?_
    rw [← index, index_filter (fun j => decide (j ≠ k))]
    have hp := hmap.filter (fun e : K × ℕ => decide (e.1 ≠ k))
    simp only [OrderedMap.erase, List.filter_filter, Bool.and_self] at hp ⊢
    exact hp
  · rw [hitems]
    exact Recency.keys_insertFront_nodup k v hv.keys_nodup
  · simp only [CLRUCache.pushed, hlist, List.map_cons, List.nodup_cons]
    refine ⟨fun hmem => ?_, hv.addrs_nodup.sublist (List.filter_sublist.map _)⟩
    obtain ⟨n, hn, heq⟩ := List.mem_map.mp hmem
    have := hv.addr_lt n (List.mem_of_mem_filter hn)
    omega
  · intro n hn
    simp only [CLRUCache.pushed, hlist, List.mem_cons] at hn
    rcases hn with rfl | hn
    · simp [CLRUCache.pushed]
    · have := hv.addr_lt n (List.mem_of_mem_filter hn)
      simp only [CLRUCache.pushed]
      omega

omit [DecidableEq K] in
theorem Valid.size_eq (hv : c.Valid) : c.size = (items c.cacheItemsList).length := by
  simp [size, hv.perm_index.length_eq, index, items]

/-- The eviction of `Put` drops the last pair where the cache has outgrown
`maxSize`. -/
theorem Valid.evictBack (hv : c.Valid) :
    c.evictBack.Valid ∧ c.evictBack.maxSize = c.maxSize ∧ c.evictBack.nextAddr = c.nextAddr ∧
      items c.evictBack.cacheItemsList =
        if c.maxSize < (items c.cacheItemsList).length then (items c.cacheItemsList).dropLast
        else items c.cacheItemsList := by
  have hlen := hv.size_eq
  unfold CLRUCache.evictBack
  by_cases hover : c.cacheItemsMap.length > c.maxSize
  · rw [if_pos hover]
    have hover' : c.maxSize < (items c.cacheItemsList).length := by rw [← hlen]; exact hover
    rw [if_pos hover']
    rcases List.eq_nil_or_concat' c.cacheItemsList with hnil | ⟨init, last, hsplit⟩
    · simp [hnil, items] at hover'
    · -- the last node's key has no other node, so its entry is the last of the index
      have hkeys := hv.keys_nodup
      rw [hsplit] at hkeys
      have hlast : ∀ n ∈ init, n.item.1 ≠ last.item.1 := by
        intro n hn heq
        simp only [items, OrderedMap.keys, List.map_append, List.map_map, List.map_singleton] at hkeys
        exact (List.nodup_append.mp hkeys).2.2 _ (List.mem_map_of_mem hn) _ (by simp) heq
      have hindex : OrderedMap.erase last.item.1 (index (init ++ [last])) = index init := by
        simp only [OrderedMap.erase, index, List.map_append, List.map_singleton, List.filter_append]
        rw [List.filter_eq_self.mpr (fun e he => ?_)]
        · simp
        · obtain ⟨n, hn, rfl⟩ := List.mem_map.mp he
          simpa using hlast n hn
      simp only [hsplit, List.getLast?_concat, List.dropLast_concat]
      refine ⟨⟨?_, ?_, ?_, ?_⟩, trivial, trivial, ?_⟩
      · rw [← hindex, ← hsplit]
        exact hv.perm_index.filter _
      · exact hv.keys_nodup.sublist (by rw [hsplit]; exact ((List.sublist_append_left _ _).map _).map _)
      · exact hv.addrs_nodup.sublist (by rw [hsplit]; exact (List.sublist_append_left _ _).map _)
      · exact fun n hn => hv.addr_lt n (by rw [hsplit]; exact List.mem_append_left _ hn)
      · simp [items]
  · rw [if_neg hover]
    have hover' : ¬ c.maxSize < (items c.cacheItemsList).length := by rw [← hlen]; exact hover
    rw [if_neg hover']
    exact ⟨hv, rfl, rfl, rfl⟩

/-- `Put` refines the recency list's put and keeps the invariant. -/
theorem Valid.put (hv : c.Valid) (k : K) (v : V) :
    (c.put k v).Valid ∧ (c.put k v).maxSize = c.maxSize ∧
      items (c.put k v).cacheItemsList = Recency.put c.maxSize k v (items c.cacheItemsList) := by
  obtain ⟨hp, hitems⟩ := hv.pushed k v
  obtain ⟨he, hmax, -, hevict⟩ := hp.evictBack
  refine ⟨he, hmax, ?_⟩
  show items (c.pushed k v).evictBack.cacheItemsList = _
  rw [hevict, hitems]
  rfl

/-- `Erase` refines the recency list's erase and keeps the invariant. -/
theorem Valid.erase (hv : c.Valid) (k : K) :
    (c.erase k).Valid ∧ (c.erase k).maxSize = c.maxSize ∧
      items (c.erase k).cacheItemsList = OrderedMap.erase k (items c.cacheItemsList) := by
  unfold CLRUCache.erase
  cases hf : find? k c.cacheItemsMap with
  | some it =>
    dsimp only
    rw [hv.eraseNode_eq hf]
    refine ⟨⟨?_, ?_, ?_, ?_⟩, rfl, items_filter (fun j => decide (j ≠ k)) _⟩
    · rw [index_filter (fun j => decide (j ≠ k))]
      exact hv.perm_index.filter _
    · rw [items_filter (fun j => decide (j ≠ k))]
      exact keys_erase_nodup k hv.keys_nodup
    · exact hv.addrs_nodup.sublist (List.filter_sublist.map _)
    · exact fun n hn => hv.addr_lt n (List.mem_of_mem_filter hn)
  | none =>
    -- no node of the key: nothing to erase
    refine ⟨hv, rfl, (List.filter_eq_self.mpr fun e he => ?_).symm⟩
    obtain ⟨n, hn, rfl⟩ := List.mem_map.mp he
    simpa using hv.key_ne hf n hn

omit [DecidableEq K] in
theorem splice_perm (a : ℕ) (l : List (ListNode K V)) : (splice a l).Perm l := by
  unfold splice
  simpa using List.filter_append_perm (fun n : ListNode K V => decide (n.addr = a)) l

/-- A `Get` of a key with no pair throws. -/
theorem Valid.get_of_none (hv : c.Valid) {k : K} (h : find? k (items c.cacheItemsList) = none) :
    c.get k = .error "There is no such key in cache" := by
  have hmap : find? k c.cacheItemsMap = none := by
    rw [hv.find?_map, find?_eq_none_iff, keys_index]
    exact (find?_eq_none_iff k _).mp h
  simp [CLRUCache.get, hmap]
  rfl

/-- A `Get` of a key with a pair returns its value and moves it to the front. -/
theorem Valid.get_of_some (hv : c.Valid) {k : K} {v : V} (h : find? k (items c.cacheItemsList) = some v) :
    ∃ c', c.get k = .ok (some v, c') ∧ c'.Valid ∧ c'.maxSize = c.maxSize ∧
      items c'.cacheItemsList = Recency.touch k (items c.cacheItemsList) := by
  obtain ⟨n, hn, hitem⟩ := List.mem_map.mp (find?_eq_some_mem h)
  have hidx : find? k (index c.cacheItemsList) = some n.addr :=
    (find?_eq_some_iff (by rw [keys_index]; exact hv.keys_nodup)).mpr
      (List.mem_map.mpr ⟨n, hn, by simp [hitem]⟩)
  have hnode : (⟨n.addr, (k, v)⟩ : ListNode K V) ∈ c.cacheItemsList := by rw [← hitem]; exact hn
  have hiff := fun m hm => node_iff hv.keys_nodup hv.addrs_nodup hnode (n := m) hm
  -- the iterator's node is the one of the key
  have hfind : c.cacheItemsList.find? (·.addr = n.addr) = some n := by
    cases hf : c.cacheItemsList.find? (·.addr = n.addr) with
    | none => exact absurd (List.find?_eq_none.mp hf n hn) (by simp)
    | some m =>
      have hm := List.mem_of_find?_eq_some hf
      have hma : m.addr = n.addr := by simpa using List.find?_some hf
      exact congrArg some (List.inj_on_of_nodup_map hv.addrs_nodup hm hn hma)
  have hsplice : items (splice n.addr c.cacheItemsList) = Recency.touch k (items c.cacheItemsList) := by
    have hfront : c.cacheItemsList.filter (·.addr = n.addr) = c.cacheItemsList.filter fun m => m.item.1 = k :=
      List.filter_congr fun m hm => by simp only [hiff m hm]
    have hrest : c.cacheItemsList.filter (·.addr ≠ n.addr) = c.cacheItemsList.filter fun m => m.item.1 ≠ k :=
      List.filter_congr fun m hm => by simp only [ne_eq, hiff m hm]
    have htouch : Recency.touch k (items c.cacheItemsList) = (k, v) :: OrderedMap.erase k (items c.cacheItemsList) := by
      simp [Recency.touch, h, Recency.insertFront]
    rw [htouch, splice, hfront, hrest, items, List.map_append, ← items, ← items,
      items_filter (fun j => decide (j = k)), items_filter (fun j => decide (j ≠ k)), filter_key_eq hv.keys_nodup h]
    rfl
  refine ⟨{ c with cacheItemsList := splice n.addr c.cacheItemsList }, ?_, ⟨?_, ?_, ?_, ?_⟩, rfl, hsplice⟩
  · simp [CLRUCache.get, hv.find?_map, hidx, hfind, hitem]
    rfl
  · exact hv.perm_index.trans ((splice_perm _ _).map _).symm
  · exact ((splice_perm _ _).map _ |>.map _).nodup_iff.mpr hv.keys_nodup
  · exact ((splice_perm _ _).map _).nodup_iff.mpr hv.addrs_nodup
  · exact fun m hm => hv.addr_lt m ((splice_perm _ _).mem_iff.mp hm)

theorem Valid.existsKey (hv : c.Valid) (k : K) : c.existsKey k = (find? k (items c.cacheItemsList)).isSome := by
  rw [CLRUCache.existsKey, hv.find?_map, Bool.eq_iff_iff, Option.isSome_iff_ne_none, Option.isSome_iff_ne_none,
    ne_eq, find?_eq_none_iff, ne_eq, find?_eq_none_iff, keys_index]

theorem Valid.access (hv : c.Valid) (op : Recency.Op K V) :
    (c.access op).Valid ∧ (c.access op).maxSize = c.maxSize ∧
      items (c.access op).cacheItemsList = Recency.apply c.maxSize op (items c.cacheItemsList) := by
  cases op with
  | put k v => exact hv.put k v
  | erase k => exact hv.erase k
  | get k =>
    cases hf : find? k (items c.cacheItemsList) with
    | none =>
      -- a `Get` that throws leaves the cache as it was
      have hget : c.access (.get k) = c := by simp [CLRUCache.access, hv.get_of_none hf]
      rw [hget]
      exact ⟨hv, rfl, by simp [Recency.apply, Recency.touch, hf]⟩
    | some v =>
      obtain ⟨c', hget, hv', hmax, hitems⟩ := hv.get_of_some hf
      have hacc : c.access (.get k) = c' := by simp [CLRUCache.access, hget]
      rw [hacc]
      exact ⟨hv', hmax, hitems⟩

/-- Every run refines the run of the recency list, and keeps the invariant. -/
theorem Valid.runOps : ∀ (ops : List (Recency.Op K V)) {c : CLRUCache K V}, c.Valid →
    (c.runOps ops).Valid ∧ (c.runOps ops).maxSize = c.maxSize ∧
      items (c.runOps ops).cacheItemsList = Recency.run c.maxSize (items c.cacheItemsList) ops
  | [], _, hv => ⟨hv, rfl, rfl⟩
  | op :: ops, c, hv => by
    obtain ⟨hv', hmax, hitems⟩ := hv.access op
    obtain ⟨hv'', hmax', hitems'⟩ := Valid.runOps ops hv'
    refine ⟨hv'', hmax'.trans hmax, ?_⟩
    rw [CLRUCache.runOps, List.foldl_cons, ← CLRUCache.runOps, hitems', hitems, hmax]
    rfl

omit [DecidableEq K] in
theorem valid_new (maxSize : ℕ) : (new maxSize : CLRUCache K V).Valid :=
  ⟨List.Perm.refl _, List.nodup_nil, List.nodup_nil, fun _ h => absurd h List.not_mem_nil⟩

end Valid

end CLRUCache

open OrderedMap CLRUCache

/-- What a run of `Put`, `Erase` and `Get` from `CLRUCache(maxSize)` leaves: the
map and the list have the same keys, the list holds each key once, its nodes have
distinct addresses, and each iterator of the map points at the node of its key;
`Size()` stays within `maxSize`; `Exists` and `Get` find a key, with the value of
its last `Put`, exactly when no `Erase` or eviction of it came since; and a `Put`
that evicts a key evicts the one whose last `Put` or `Get` is the oldest. -/
structure RunProperties {K V : Type} [DecidableEq K] (maxSize : ℕ) (ops : List (Recency.Op K V))
    (c : CLRUCache K V) : Prop where
  sameKeys : ∀ k, k ∈ keys c.cacheItemsMap ↔ k ∈ keys (items c.cacheItemsList)
  keysOnce : (keys (items c.cacheItemsList)).Nodup
  addrsOnce : (c.cacheItemsList.map ListNode.addr).Nodup
  iteratorsPoint : ∀ k a, find? k c.cacheItemsMap = some a → ∃ v, (⟨a, (k, v)⟩ : ListNode K V) ∈ c.cacheItemsList
  size_le : c.size ≤ maxSize
  existsKey_eq : ∀ k, c.existsKey k = (Recency.lastValue k (Recency.trace maxSize [] ops)).isSome
  get_lastValue : ∀ k v, Recency.lastValue k (Recency.trace maxSize [] ops) = some v →
    ∃ c', c.get k = .ok (some v, c')
  evicts_leastRecent : ∀ k v e, e ∈ keys (items c.cacheItemsList) → e ≠ k →
    e ∉ keys (items (c.put k v).cacheItemsList) →
      ∀ j ∈ keys (items c.cacheItemsList), j ≠ e → Recency.lastUse ops e < Recency.lastUse ops j

theorem lruCache_invariant {K V : Type} [DecidableEq K] (maxSize : ℕ) (hmax : 1 ≤ maxSize)
    (ops : List (Recency.Op K V)) : RunProperties maxSize ops ((new maxSize : CLRUCache K V).runOps ops) := by
  set c := (new maxSize : CLRUCache K V).runOps ops
  obtain ⟨hv, hmaxSize, hitems⟩ := (valid_new maxSize : (new maxSize : CLRUCache K V).Valid).runOps ops
  replace hmaxSize : c.maxSize = maxSize := hmaxSize
  replace hitems : items c.cacheItemsList = Recency.run maxSize [] ops := hitems
  have hreach : Recency.Reachable maxSize ops (Recency.run maxSize [] ops) := Recency.reachable_run maxSize ops
  -- what the cache holds is what the recency list holds
  have hfind : ∀ k, find? k (items c.cacheItemsList) = Recency.lastValue k (Recency.trace maxSize [] ops) := by
    intro k
    rw [← Recency.find?_run_nil, ← hitems]
  rw [← hitems] at hreach
  constructor
  case sameKeys =>
    intro k
    rw [← keys_index]
    exact (hv.perm_index.map Prod.fst).mem_iff
  case keysOnce => exact hv.keys_nodup
  case addrsOnce => exact hv.addrs_nodup
  case iteratorsPoint =>
    intro k a h
    exact (find?_index_eq_some hv.keys_nodup).mp ((hv.find?_map k) ▸ h)
  case size_le =>
    rw [hv.size_eq]
    have := hreach.length_le
    simpa [items] using this
  case existsKey_eq =>
    intro k
    rw [hv.existsKey, hfind]
  case get_lastValue =>
    intro k v hval
    exact (hv.get_of_some ((hfind k).trans hval)).imp fun _ h => h.1
  case evicts_leastRecent =>
    intro k v e he hne hout j hj hje
    rw [(hv.put k v).2.2, hmaxSize] at hout
    exact (Recency.evicted_leastRecent hmax hreach (Recency.evicted_of_removed he hne hout)).2.2 j hj hje

/-- Two puts into a cache of size 2, a get of the first key, and a third put:
the second key, now the least recently used, is the one evicted. -/
def sampleOps : List (Recency.Op ℕ ℕ) := [.put 1 10, .put 2 20, .get 1, .put 3 30]

theorem sampleOps_properties :
    1 ≤ 2 ∧ RunProperties 2 sampleOps ((new 2 : CLRUCache ℕ ℕ).runOps sampleOps) ∧
      ((new 2 : CLRUCache ℕ ℕ).runOps sampleOps).existsKey 2 = false :=
  ⟨by decide, lruCache_invariant 2 (by decide) sampleOps, by decide⟩

end AokChain
