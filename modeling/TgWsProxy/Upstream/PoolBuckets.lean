import TgWsProxy.Core.Tally
import TgWsProxy.Upstream.SocketPool

/-!
# The buckets of the socket pools

The list of entries as a map of buckets, what the sockets of a bucket were dialled for, and how
often a socket is counted in them.
-/

namespace TgWsProxy

open TgWsProxy.Core

/-! ## The buckets as a map -/

namespace Pools

variable {pools : Pools} {key other : PoolKey} {b : Bucket} {f : Bucket → Bucket}

/-- A bucket that is looked up is in the map. -/
theorem mem_of_get (h : get pools key = some b) : (key, b) ∈ pools := by
  obtain ⟨e, hfind, rfl⟩ := Option.map_eq_some_iff.mp h
  have hkey : e.1 = key := by simpa using List.find?_some hfind
  exact hkey ▸ List.mem_of_find?_eq_some hfind

/-- A key of the map has a bucket. -/
theorem get_isSome_of_mem (h : key ∈ keys pools) : (get pools key).isSome := by
  obtain ⟨e, hmem, hkey⟩ := List.mem_map.mp ((List.mem_insertionSort _).mp h)
  rw [get, Option.isSome_map, List.find?_isSome]
  exact ⟨e, hmem, decide_eq_true hkey⟩

/-- The bucket that is changed. -/
theorem get_modify_self (h : get pools key = some b) :
    get (modify key f pools) key = some (f b) := by
  obtain ⟨e, hfind, rfl⟩ := Option.map_eq_some_iff.mp h
  have hself : (modify key f pools).find? (·.1 = key) =
      (pools.find? (·.1 = key)).map fun e => (e.1, f e.2) :=
    find?_updateFirst_self fun _ hx => hx
  rw [get, hself, hfind]
  rfl

/-- The other buckets stay. -/
theorem get_modify_of_ne (h : other ≠ key) : get (modify key f pools) other = get pools other := by
  rw [get, modify, find?_updateFirst_of_ne, get]
  intro x hx
  have hne : x.1 ≠ other := fun heq => h (heq.symm.trans (of_decide_eq_true hx))
  exact ⟨decide_eq_false hne, decide_eq_false hne⟩

/-- What is in a map with one bucket changed. -/
theorem mem_modify {e : PoolKey × Bucket} (h : e ∈ modify key f pools) :
    e ∈ pools ∨ ∃ b, get pools key = some b ∧ e = (key, f b) := by
  rcases mem_updateFirst_find h with hold | ⟨old, hfind, rfl⟩
  · exact Or.inl hold
  · have hkey : old.1 = key := by simpa using List.find?_some hfind
    exact Or.inr ⟨old.2, by rw [get, hfind, Option.map_some], by rw [hkey]⟩

/-- What is in a map with a bucket made where there was none. -/
theorem mem_orDefault {e : PoolKey × Bucket} (h : e ∈ orDefault pools key) :
    e ∈ pools ∨ e = (key, {}) := by
  unfold orDefault at h
  split at h
  · exact Or.inl h
  · exact (List.mem_append.mp h).imp id List.mem_singleton.mp

/-- Every bucket is still there, with as many sockets at most. -/
def Keeps (pools pools' : Pools) : Prop :=
  ∀ key b, get pools key = some b → ∃ b', get pools' key = some b' ∧ b'.idle.length ≤ b.idle.length

/-- A bucket that does not grow. -/
theorem keeps_modify (hf : ∀ b, get pools key = some b → (f b).idle.length ≤ b.idle.length) :
    Keeps pools (modify key f pools) := by
  intro other b hb
  by_cases hkey : other = key
  · subst hkey
    exact ⟨f b, get_modify_self hb, hf b hb⟩
  · exact ⟨b, (get_modify_of_ne hkey).trans hb, Nat.le_refl _⟩

/-- A bucket that is made is empty. -/
theorem keeps_orDefault (key : PoolKey) : Keeps pools (orDefault pools key) := by
  intro other b hb
  refine ⟨b, ?_, Nat.le_refl _⟩
  unfold orDefault
  split
  · exact hb
  · obtain ⟨e, hfind, rfl⟩ := Option.map_eq_some_iff.mp hb
    rw [get, List.find?_append, hfind]
    rfl

end Pools

/-! ## What a socket was dialled for -/

/-- A socket of a bucket, and what it asked its server for. -/
def PoolSocket.Fits (cfg : Config) (key : PoolKey) (socket : PoolSocket) : Prop :=
  socket.key = key ∧
    match key with
    | .direct dc media test => cfg.dcRedirects[dc]? = some socket.request.host ∧
        socket.request.domain ∈ wsDomains dc media ∧ socket.request.path = wsPath test
    | .worker dc => socket.request.domain ∈ cfg.cfproxyWorkerDomains ∧
        ∃ ip, fallbackIp dc false = some ip ∧ socket.request.path = workerPath dc ip

/-- A direct dial is to the address it is for, under one of its domains. -/
theorem poolDirectFrom_spec {cfg : Config} {ws : WsAnswers} {ip path : String} {last : IoError}
    {domains : List String} {request : WsRequest}
    (h : poolDirectFrom cfg ws ip path last domains = .ok request) :
    request.host = ip ∧ request.domain ∈ domains ∧ request.path = path := by
  induction domains generalizing last with
  | nil => cases h
  | cons domain rest ih =>
    have hrest : ∀ {last}, poolDirectFrom cfg ws ip path last rest = .ok request →
        request.host = ip ∧ request.domain ∈ domain :: rest ∧ request.path = path := by
      intro last hlast
      obtain ⟨hhost, hdomain, hpath⟩ := ih hlast
      exact ⟨hhost, List.mem_cons_of_mem _ hdomain, hpath⟩
    simp only [poolDirectFrom] at h
    split at h
    · obtain rfl := Except.ok.inj h
      exact ⟨rfl, List.mem_cons_self .., rfl⟩
    · split at h
      · split at h
        · obtain rfl := Except.ok.inj h
          exact ⟨rfl, List.mem_cons_self .., rfl⟩
        · exact hrest h
      · exact hrest h

/-- A dial of a worker is to one of the workers, under the path of its DC. -/
theorem worker_spec {cfg : Config} {ws : WsAnswers} {dc : Int} {ip : String} {last : IoError}
    {domains : List String} {request : WsRequest}
    (h : worker cfg ws dc ip last domains = .ok request) :
    request.domain ∈ domains ∧ request.path = workerPath dc ip := by
  induction domains generalizing last with
  | nil => cases h
  | cons domain rest ih =>
    simp only [worker] at h
    split at h
    · obtain rfl := Except.ok.inj h
      exact ⟨List.mem_cons_self .., rfl⟩
    · obtain ⟨hdomain, hpath⟩ := ih h
      exact ⟨List.mem_cons_of_mem _ hdomain, hpath⟩

/-- A dial that works gives a socket for its bucket. -/
theorem dial_fits {cfg : Config} {ws : WsAnswers} {shuffled : List String} {key : PoolKey}
    {request : WsRequest} (hperm : shuffled.Perm cfg.cfproxyWorkerDomains)
    (h : dial cfg ws shuffled key = some (.ok request)) (id : Nat) :
    PoolSocket.Fits cfg key ⟨id, key, request⟩ := by
  refine ⟨rfl, ?_⟩
  cases key with
  | direct dc media test =>
    obtain ⟨ip, hip, hok⟩ := Option.map_eq_some_iff.mp h
    obtain ⟨hhost, hdomain, hpath⟩ := poolDirectFrom_spec hok
    exact ⟨hhost ▸ hip, hdomain, hpath⟩
  | worker dc =>
    obtain ⟨ip, hip, hok⟩ := Option.map_eq_some_iff.mp h
    obtain ⟨hdomain, hpath⟩ := worker_spec hok
    exact ⟨hperm.mem_iff.mp hdomain, ip, hip, hpath⟩

/-- The buckets that there may be. -/
def PoolKey.Placed (cfg : Config) : PoolKey → Prop
  | .direct dc _ _ => dc ∈ cfg.dcRedirects
  | .worker dc => dc ∈ dcIds

/-- For such a bucket the dial does not panic. -/
theorem PoolKey.Placed.dial_isSome {cfg : Config} {key : PoolKey} (h : key.Placed cfg)
    (ws : WsAnswers) (shuffled : List String) : (dial cfg ws shuffled key).isSome := by
  cases key with
  | direct dc media test =>
    rw [dial, poolDirect, Option.isSome_map]
    exact Std.ExtTreeMap.isSome_getElem?_iff_mem.mpr h
  | worker dc =>
    rw [dial, Option.isSome_map]
    have hdc : dc ∈ dcIds := h
    simp only [dcIds, List.mem_cons, List.not_mem_nil, or_false] at hdc
    rcases hdc with rfl | rfl | rfl | rfl | rfl | rfl <;> rfl

/-- The pools of the beginning are placed and empty. -/
theorem placed_of_initial {cfg : Config} : ∀ e ∈ initialPools cfg, e.1.Placed cfg ∧ e.2 = {} := by
  intro e he
  unfold initialPools at he
  split at he
  · cases he
  · rcases List.mem_append.mp he with hdirect | hworker
    · obtain ⟨dc, hdc, hmem⟩ := List.mem_flatMap.mp hdirect
      obtain ⟨media, -, rfl⟩ := List.mem_map.mp hmem
      exact ⟨Std.ExtTreeMap.mem_keys.mp hdc, rfl⟩
    · split at hworker
      · cases hworker
      · obtain ⟨dc, hdc, rfl⟩ := List.mem_map.mp hworker
        exact ⟨(List.mem_filter.mp hdc).1, rfl⟩

/-- The backoff is a second at least. -/
theorem le_refillBackoff (failures : Nat) : seconds 1 ≤ refillBackoff failures := by
  have hshift : 0 < 1 <<< min (failures - 1) 12 := by
    rw [Nat.shiftLeft_eq]
    exact Nat.mul_pos Nat.one_pos (Nat.two_pow_pos _)
  unfold refillBackoff seconds
  exact Nat.mul_le_mul_right _ (by omega)

/-! ## Counting sockets -/

/-- One for the socket with this number. -/
def Idle.at (id : Nat) (item : Idle) : Nat := if item.socket.id = id then 1 else 0

/-- The socket that a client holds. -/
def ClientStage.item : ClientStage → Option Idle
  | .popped _ item | .examining _ item _ | .hit _ item _ => some item
  | _ => none

def PoolClient.at (id : Nat) (c : PoolClient) : Nat := c.stage.item.elim 0 (Idle.at id)

def HandOut.at (id : Nat) (h : HandOut) : Nat := if h.socket.id = id then 1 else 0

namespace Pools

variable {pools : Pools} {key : PoolKey} {b : Bucket} {f : Bucket → Bucket} {id : Nat}

/-- How often a number is in the buckets. -/
def count (id : Nat) (pools : Pools) : Nat := tally (fun e => tally (Idle.at id) e.2.idle) pools

/-- Changing a bucket exchanges its sockets. -/
theorem count_modify (id : Nat) (h : get pools key = some b) :
    count id (modify key f pools) + tally (Idle.at id) b.idle =
      count id pools + tally (Idle.at id) (f b).idle := by
  obtain ⟨e, hfind, rfl⟩ := Option.map_eq_some_iff.mp h
  exact tally_updateFirst hfind

/-- A bucket that only loses sockets. -/
theorem count_modify_le (hf : ∀ b, get pools key = some b → (f b).idle.Sublist b.idle) :
    count id (modify key f pools) ≤ count id pools := by
  cases hget : get pools key with
  | none =>
    have hnone := Option.map_eq_none_iff.mp hget
    rw [modify, updateFirst_of_none (List.find?_eq_none.mp hnone)]
  | some b =>
    have hcount := count_modify (f := f) id hget
    have hle : tally (Idle.at id) (f b).idle ≤ tally (Idle.at id) b.idle :=
      tally_le_of_sublist (hf b hget)
    omega

/-- A bucket that is made has no socket. -/
theorem count_orDefault (id : Nat) (key : PoolKey) :
    count id (orDefault pools key) = count id pools := by
  unfold orDefault
  split
  · rfl
  · simp [count]

/-- The invariant of the buckets. -/
def Sound (cfg : Config) (pools : Pools) : Prop :=
  ∀ e ∈ pools, e.1.Placed cfg ∧ e.2.idle.length ≤ capacity cfg e.1 ∧
    ∀ item ∈ e.2.idle, item.socket.Fits cfg e.1

/-- A bucket that only loses sockets stays sound. -/
theorem Sound.modify {cfg : Config} (h : Sound cfg pools)
    (hf : ∀ b, (f b).idle.Sublist b.idle) : Sound cfg (modify key f pools) := by
  intro e he
  rcases mem_modify he with hold | ⟨b, hb, rfl⟩
  · exact h e hold
  · obtain ⟨hplaced, hlength, hfits⟩ := h _ (mem_of_get hb)
    exact ⟨hplaced, Nat.le_trans (hf b).length_le hlength,
      fun item hitem => hfits item ((hf b).subset hitem)⟩

end Pools

end TgWsProxy
