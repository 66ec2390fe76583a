import PocketSkynet.Lib.Buckets
import PocketSkynet.Lib.Run
import PocketSkynet.Lib.Table
import PocketSkynet.Server.Hub

/-!
# Routing in the Hub

The hub keeps a table of its connections and two indexes into it, by wallet and by room, so
that an event need not be tried on every connection. Three operations write to them: a
connection is registered or unregistered, or all connections of a wallet are given another
view. The number of recipients that is logged with an event is counted through the indexes.

Connections are numbered before they are registered. A number is given out once, so a number
that is registered has not been registered before.

## Main definitions

* `Hub`: The connection table, the indexes and the count.
* `Hub.register`, `Hub.unregister`, `Hub.setUserView`: The operations.
* `Hub.recipients`: The recipients of an event, through the indexes.
* `Exchange`, `HubCall`, `call`: A hub and the numbers that have been given out.
* `Hub.Routes`: The indexes are as good as the table.

## Theorems

* `indexed_register`, `indexed_unregister`, `indexed_setUserView`: The operations keep the
  indexes in line with the table.
* `routes_of_indexed`: Then they are as good as the table.
* `routes_throughout`: In every run they are.
-/

namespace PocketSkynet

/-- Connections at most, over all wallets. -/
def maxConnections : Nat := 5000

/-- What the hub keeps of a connection. -/
structure ConnHandle where
  id : Nat
  wallet : WalletAddress
  view : ConnView
deriving DecidableEq, Repr

/-- Why a connection is not admitted. -/
inductive HubError where
  | atCapacity
  | tooManyConnections
deriving DecidableEq, Repr

/-- The connections and the indexes into them, and who is present without a connection and since
    when. -/
structure Hub where
  conns : List ConnHandle
  byUser : Buckets WalletAddress Nat
  byRoom : Buckets RoomId Nat
  total : Nat
  beacons : List (WalletAddress × PresenceStatus × Int)

namespace Hub

/-- A hub nobody is connected to. -/
def empty : Hub := ⟨[], .empty, .empty, 0, []⟩

/-- The connection of a number. -/
def conn (h : Hub) (id : Nat) : Option ConnHandle := Table.lookup ConnHandle.id id h.conns

def hasCapacity (h : Hub) : Bool := decide (h.total < maxConnections)

/-- Admit a connection, enforcing both caps. -/
def register (h : Hub) (c : ConnHandle) : Except HubError Hub :=
  if ¬ h.hasCapacity then .error .atCapacity
  else if maxPerWallet ≤ (h.byUser.bucket c.wallet).length then .error .tooManyConnections
  else .ok
    { conns := Table.upsert ConnHandle.id c h.conns
      byUser := h.byUser.push c.id c.wallet
      byRoom := h.byRoom.fileAll c.id c.view.rooms
      total := h.total + 1
      beacons := h.beacons.filter fun b => b.1 ≠ c.wallet }

/-- The hub after a connection has been admitted or not. -/
def admitted (h : Hub) (c : ConnHandle) : Hub :=
  match h.register c with
  | .ok h' => h'
  | .error _ => h

/-- Remove a connection from every index. -/
def unregister (h : Hub) (id : Nat) : Hub :=
  match h.conn id with
  | none => h
  | some c =>
      { h with
        conns := Table.erase ConnHandle.id id h.conns
        total := h.total - 1
        byRoom := h.byRoom.dropAll id c.view.rooms
        byUser := h.byUser.drop id c.wallet }

/-- Swap a view into one connection and reindex it. -/
def swapView (view : ConnView) (h : Hub) (id : Nat) : Hub :=
  match h.conn id with
  | none => h
  | some c =>
      let gone := c.view.rooms.filter fun r => !view.rooms.contains r
      let new := view.rooms.filter fun r => !c.view.rooms.contains r
      { h with
        conns := Table.modify ConnHandle.id id (fun c => { c with view := view }) h.conns
        byRoom := (h.byRoom.dropAll id gone).fileAll id new }

/-- Swap a fresh view into every connection of one wallet. -/
def setUserView (h : Hub) (wallet : WalletAddress) (view : ConnView) : Hub :=
  (h.byUser.bucket wallet).foldl (swapView view) h

/-- An event to try on the connections. -/
def probe (target : Target) (origin : Option WalletAddress) : Envelope :=
  ⟨0, target, origin, .pong⟩

/-- The connections to try it on. -/
def candidates (h : Hub) : Target → List Nat
  | .room roomId => h.byRoom.bucket roomId
  | .roomExcept roomId _ => h.byRoom.bucket roomId
  | .rooms roomIds => (roomIds.flatMap h.byRoom.bucket).dedup
  | .user wallet => h.byUser.bucket wallet
  | .all => h.conns.map ConnHandle.id

/-- The connections that accept it. -/
def accepting (h : Hub) (target : Target) (origin : Option WalletAddress) : List ConnHandle :=
  ((h.candidates target).filterMap h.conn).filter fun c =>
    c.view.accepts (probe target origin) c.wallet

/-- How many live connections would accept this event. -/
def recipients (h : Hub) (target : Target) (origin : Option WalletAddress) : Nat :=
  (h.accepting target origin).length

/-- The indexes are as good as the table: the recipients of every event are the connections
    that accept it, all of these are counted, and what is in the indexes is alive. -/
structure Routes (h : Hub) : Prop where
  mem : ∀ target origin c, c ∈ h.accepting target origin ↔
    c ∈ h.conns ∧ c.view.accepts (probe target origin) c.wallet = true
  count : ∀ target origin, h.recipients target origin =
    (h.conns.filter fun c => c.view.accepts (probe target origin) c.wallet).length
  total : h.total = h.conns.length
  rooms : ∀ room b, h.byRoom.find room = some b → b ≠ [] ∧ ∀ id ∈ b, (h.conn id).isSome
  users : ∀ wallet b, h.byUser.find wallet = some b → b ≠ [] ∧ ∀ id ∈ b, (h.conn id).isSome

/-- The indexes are in line with the table. -/
structure Indexed (h : Hub) : Prop where
  keyed : Table.Keyed ConnHandle.id h.conns
  total : h.total = h.conns.length
  roomsTidy : h.byRoom.Tidy
  usersTidy : h.byUser.Tidy
  rooms : ∀ room id, id ∈ h.byRoom.bucket room ↔ ∃ c ∈ h.conns, c.id = id ∧ room ∈ c.view.rooms
  users : ∀ wallet id, id ∈ h.byUser.bucket wallet ↔ ∃ c ∈ h.conns, c.id = id ∧ c.wallet = wallet

theorem indexed_empty : empty.Indexed where
  keyed := Table.keyed_nil
  total := rfl
  roomsTidy := Buckets.tidy_empty
  usersTidy := Buckets.tidy_empty
  rooms := by simp [empty, Buckets.bucket, Buckets.empty]
  users := by simp [empty, Buckets.bucket, Buckets.empty]

/-! ### One operation -/

variable {h h' : Hub}

-- A number that is not in the table is put at its end.
theorem conns_register {c : ConnHandle} (hnew : h.conn c.id = none)
    (hreg : h.register c = .ok h') :
    h' = { conns := h.conns ++ [c], byUser := h.byUser.push c.id c.wallet,
           byRoom := h.byRoom.fileAll c.id c.view.rooms, total := h.total + 1,
           beacons := h.beacons.filter fun b => b.1 ≠ c.wallet } := by
  have happend : Table.upsert ConnHandle.id c h.conns = h.conns ++ [c] := by
    have hnone : Table.lookup ConnHandle.id c.id h.conns = none := hnew
    rw [Table.upsert, hnone]
    rfl
  unfold register at hreg
  by_cases hcap : ¬ h.hasCapacity = true
  · rw [if_pos hcap] at hreg
    cases hreg
  · rw [if_neg hcap] at hreg
    by_cases hmany : maxPerWallet ≤ (h.byUser.bucket c.wallet).length
    · rw [if_pos hmany] at hreg
      cases hreg
    · rw [if_neg hmany, happend] at hreg
      exact (Except.ok.inj hreg).symm

theorem indexed_register (hi : h.Indexed) {c : ConnHandle} (hnew : h.conn c.id = none)
    (hreg : h.register c = .ok h') : h'.Indexed := by
  rw [conns_register hnew hreg]
  have hfresh : ∀ x ∈ h.conns, x.id ≠ c.id := Table.lookup_eq_none.1 hnew
  refine ⟨Table.keyed_append_one hi.keyed hnew, ?_, Buckets.tidy_fileAll hi.roomsTidy,
    Buckets.tidy_push hi.usersTidy ?_, ?_, ?_⟩
  · rw [List.length_append, List.length_singleton, hi.total]
  · intro hmem
    rcases (hi.users c.wallet c.id).1 hmem with ⟨x, hx, hid, -⟩
    exact hfresh x hx hid
  · intro room id
    rw [Buckets.mem_fileAll, hi.rooms]
    constructor
    · rintro (⟨x, hx, hid, hroom⟩ | ⟨rfl, hroom⟩)
      · exact ⟨x, List.mem_append_left _ hx, hid, hroom⟩
      · exact ⟨c, List.mem_append_right _ (List.mem_singleton_self c), rfl, hroom⟩
    · rintro ⟨x, hx, hid, hroom⟩
      rcases List.mem_append.1 hx with hx | hx
      · exact Or.inl ⟨x, hx, hid, hroom⟩
      · rw [List.mem_singleton.1 hx] at hid hroom
        exact Or.inr ⟨hid.symm, hroom⟩
  · intro wallet id
    rw [Buckets.mem_push, hi.users]
    constructor
    · rintro (⟨x, hx, hid, hwallet⟩ | ⟨rfl, rfl⟩)
      · exact ⟨x, List.mem_append_left _ hx, hid, hwallet⟩
      · exact ⟨c, List.mem_append_right _ (List.mem_singleton_self c), rfl, rfl⟩
    · rintro ⟨x, hx, hid, hwallet⟩
      rcases List.mem_append.1 hx with hx | hx
      · exact Or.inl ⟨x, hx, hid, hwallet⟩
      · rw [List.mem_singleton.1 hx] at hid hwallet
        exact Or.inr ⟨hid.symm, hwallet.symm⟩

-- In a table with one row for each number, a number names its row.
theorem Indexed.eq_of_id (hi : h.Indexed) {c x : ConnHandle} {id : Nat} (hc : h.conn id = some c)
    (hx : x ∈ h.conns) (hid : x.id = id) : x = c := by
  have hfind := Table.lookup_of_mem hi.keyed hx
  rw [hid] at hfind
  exact Option.some.inj (hfind.symm.trans hc)

theorem indexed_unregister (hi : h.Indexed) (id : Nat) : (h.unregister id).Indexed := by
  unfold unregister
  cases hc : h.conn id with
  | none => exact hi
  | some c =>
      refine ⟨Table.keyed_erase id hi.keyed, ?_, Buckets.tidy_dropAll hi.roomsTidy,
        Buckets.tidy_drop hi.usersTidy, ?_, ?_⟩
      · have hlength := Table.length_erase hi.keyed hc
        dsimp only
        rw [hi.total]
        omega
      · intro room id'
        dsimp only
        rw [Buckets.mem_dropAll, hi.rooms]
        constructor
        · rintro ⟨⟨x, hx, rfl, hroom⟩, hnot⟩
          refine ⟨x, Table.mem_erase.2 ⟨hx, fun hid => hnot ⟨hid, ?_⟩⟩, rfl, hroom⟩
          rw [← hi.eq_of_id hc hx hid]
          exact hroom
        · rintro ⟨x, hx, rfl, hroom⟩
          rcases Table.mem_erase.1 hx with ⟨hx, hne⟩
          exact ⟨⟨x, hx, rfl, hroom⟩, fun hid => hne hid.1⟩
      · intro wallet id'
        dsimp only
        rw [Buckets.mem_drop, hi.users]
        constructor
        · rintro ⟨⟨x, hx, rfl, hwallet⟩, hnot⟩
          refine ⟨x, Table.mem_erase.2 ⟨hx, fun hid => hnot ⟨hid, ?_⟩⟩, rfl, hwallet⟩
          rw [← hi.eq_of_id hc hx hid]
          exact hwallet.symm
        · rintro ⟨x, hx, rfl, hwallet⟩
          rcases Table.mem_erase.1 hx with ⟨hx, hne⟩
          exact ⟨⟨x, hx, rfl, hwallet⟩, fun hid => hne hid.1⟩

theorem indexed_swapView (hi : h.Indexed) (view : ConnView) (id : Nat) :
    (swapView view h id).Indexed := by
  unfold swapView
  cases hc : h.conn id with
  | none => exact hi
  | some c =>
      have hkey : ∀ x : ConnHandle, { x with view := view }.id = x.id := fun _ => rfl
      refine ⟨Table.keyed_modify id hkey hi.keyed, ?_,
        Buckets.tidy_fileAll (Buckets.tidy_dropAll hi.roomsTidy), hi.usersTidy, ?_, ?_⟩
      · dsimp only
        rw [hi.total, Table.modify, List.length_map]
      · intro room id'
        dsimp only
        rw [Buckets.mem_fileAll, Buckets.mem_dropAll, hi.rooms]
        simp only [List.mem_filter, Bool.not_eq_true', List.contains_eq_mem,
          decide_eq_false_iff_not]
        constructor
        · rintro (⟨⟨x, hx, rfl, hroom⟩, hnot⟩ | ⟨rfl, hroom, -⟩)
          · by_cases hid : x.id = id
            · -- The room is kept, so the new view has it.
              rw [hi.eq_of_id hc hx hid] at hroom
              have hkept : room ∈ view.rooms := by
                by_contra hgone
                exact hnot ⟨hid, hroom, hgone⟩
              exact ⟨{ x with view := view }, Table.mem_modify.2 ⟨x, hx, by rw [if_pos hid]⟩, rfl,
                hkept⟩
            · exact ⟨x, Table.mem_modify.2 ⟨x, hx, by rw [if_neg hid]⟩, rfl, hroom⟩
          · have hmem : c ∈ h.conns := Table.mem_of_lookup hc
            have hid : c.id = id' := Table.key_of_lookup hc
            exact ⟨{ c with view := view }, Table.mem_modify.2 ⟨c, hmem, by rw [if_pos hid]⟩, hid,
              hroom⟩
        · rintro ⟨x', hx', rfl, hroom⟩
          rcases Table.mem_modify.1 hx' with ⟨x, hx, rfl⟩
          by_cases hid : x.id = id
          · rw [if_pos hid] at hroom ⊢
            by_cases hold : room ∈ c.view.rooms
            · rw [← hi.eq_of_id hc hx hid] at hold
              exact Or.inl ⟨⟨x, hx, rfl, hold⟩, fun hnot => hnot.2.2 hroom⟩
            · exact Or.inr ⟨hid, hroom, hold⟩
          · rw [if_neg hid] at hroom ⊢
            exact Or.inl ⟨⟨x, hx, rfl, hroom⟩, fun hnot => hid hnot.1⟩
      · intro wallet id'
        dsimp only
        rw [hi.users]
        constructor
        · rintro ⟨x, hx, rfl, hwallet⟩
          by_cases hid : x.id = id
          · exact ⟨{ x with view := view }, Table.mem_modify.2 ⟨x, hx, by rw [if_pos hid]⟩, rfl,
              hwallet⟩
          · exact ⟨x, Table.mem_modify.2 ⟨x, hx, by rw [if_neg hid]⟩, rfl, hwallet⟩
        · rintro ⟨x', hx', rfl, hwallet⟩
          rcases Table.mem_modify.1 hx' with ⟨x, hx, rfl⟩
          refine ⟨x, hx, ?_⟩
          by_cases hid : x.id = id
          · rw [if_pos hid] at hwallet ⊢
            exact ⟨rfl, hwallet⟩
          · rw [if_neg hid] at hwallet ⊢
            exact ⟨rfl, hwallet⟩

theorem indexed_setUserView (hi : h.Indexed) (wallet : WalletAddress) (view : ConnView) :
    (h.setUserView wallet view).Indexed := by
  have hfold : ∀ (ids : List Nat) (h : Hub), h.Indexed → (ids.foldl (swapView view) h).Indexed := by
    intro ids
    induction ids with
    | nil => exact fun h hi => hi
    | cons id ids ih => exact fun h hi => ih _ (indexed_swapView hi view id)
  exact hfold _ h hi

/-! ### Numbers in use -/

/-- The numbers of the connections. -/
def ids (h : Hub) : List Nat := h.conns.map ConnHandle.id

theorem conn_eq_none {id : Nat} : h.conn id = none ↔ id ∉ h.ids := by
  rw [conn, Table.lookup_eq_none, ids, List.mem_map]
  constructor
  · rintro hnone ⟨c, hc, hid⟩
    exact hnone c hc hid
  · exact fun hnot c hc hid => hnot ⟨c, hc, hid⟩

theorem ids_register {c : ConnHandle} (hnew : h.conn c.id = none)
    (hreg : h.register c = .ok h') : h'.ids = h.ids ++ [c.id] := by
  rw [conns_register hnew hreg, ids, List.map_append]
  rfl

theorem mem_ids_unregister {id id' : Nat} (hmem : id ∈ (h.unregister id').ids) : id ∈ h.ids := by
  unfold unregister at hmem
  cases hc : h.conn id' with
  | none =>
      rw [hc] at hmem
      exact hmem
  | some c =>
      rw [hc] at hmem
      rcases List.mem_map.1 hmem with ⟨x, hx, hid⟩
      exact List.mem_map.2 ⟨x, (Table.mem_erase.1 hx).1, hid⟩

theorem ids_setUserView (wallet : WalletAddress) (view : ConnView) :
    (h.setUserView wallet view).ids = h.ids := by
  have hone : ∀ (h : Hub) (id : Nat), (swapView view h id).ids = h.ids := by
    intro h id
    unfold swapView
    cases h.conn id with
    | none => rfl
    | some c =>
        refine List.map_map.trans (List.map_congr_left fun x _ => ?_)
        dsimp only [Function.comp]
        split <;> rfl
  have hfold : ∀ (ids : List Nat) (h : Hub), (ids.foldl (swapView view) h).ids = h.ids := by
    intro ids
    induction ids with
    | nil => exact fun _ => rfl
    | cons id ids ih => exact fun h => (ih _).trans (hone h id)
  exact hfold _ h

/-! ### Recipients -/

-- Nobody accepts an event who is not among the candidates for it.
theorem Indexed.mem_candidates (hi : h.Indexed) {c : ConnHandle} (hc : c ∈ h.conns)
    {target : Target} {origin : Option WalletAddress}
    (haccepts : c.view.accepts (probe target origin) c.wallet = true) :
    c.id ∈ h.candidates target := by
  have hroom : ∀ room, room ∈ c.view.rooms → c.id ∈ h.byRoom.bucket room :=
    fun room hr => (hi.rooms room c.id).2 ⟨c, hc, rfl, hr⟩
  unfold ConnView.accepts at haccepts
  -- Blocks come first, and then the target decides.
  by_cases hblocked : (probe target origin).origin.any (c.view.blocks.contains ·) = true
  · rw [if_pos hblocked] at haccepts
    cases haccepts
  rw [if_neg hblocked] at haccepts
  cases target with
  | room roomId => exact hroom roomId (by simpa [probe] using haccepts)
  | user wallet =>
      have hwallet : wallet = c.wallet := by simpa [probe] using haccepts
      exact (hi.users wallet c.id).2 ⟨c, hc, rfl, hwallet.symm⟩
  | roomExcept roomId except =>
      have hboth : roomId ∈ c.view.rooms ∧ except ≠ c.wallet := by simpa [probe] using haccepts
      exact hroom roomId hboth.1
  | rooms roomIds =>
      have hany : ∃ room ∈ roomIds, room ∈ c.view.rooms := by simpa [probe] using haccepts
      rcases hany with ⟨room, hmem, hr⟩
      exact List.mem_dedup.2 (List.mem_flatMap.2 ⟨room, hmem, hroom room hr⟩)
  | all => exact List.mem_map_of_mem hc

theorem Indexed.nodup_candidates (hi : h.Indexed) (target : Target) :
    (h.candidates target).Nodup := by
  cases target with
  | room roomId => exact hi.roomsTidy.nodup roomId
  | user wallet => exact hi.usersTidy.nodup wallet
  | roomExcept roomId except => exact hi.roomsTidy.nodup roomId
  | rooms roomIds => exact List.nodup_dedup _
  | all => exact hi.keyed

theorem Indexed.mem_accepting (hi : h.Indexed) (target : Target) (origin : Option WalletAddress)
    (c : ConnHandle) : c ∈ h.accepting target origin ↔
      c ∈ h.conns ∧ c.view.accepts (probe target origin) c.wallet = true := by
  rw [accepting, List.mem_filter, List.mem_filterMap]
  constructor
  · rintro ⟨⟨id, -, hfind⟩, haccepts⟩
    exact ⟨Table.mem_of_lookup hfind, haccepts⟩
  · rintro ⟨hc, haccepts⟩
    exact ⟨⟨c.id, hi.mem_candidates hc haccepts, Table.lookup_of_mem hi.keyed hc⟩, haccepts⟩

-- Two numbers do not name the same connection.
theorem Indexed.nodup_accepting (hi : h.Indexed) (target : Target)
    (origin : Option WalletAddress) : (h.accepting target origin).Nodup := by
  refine ((hi.nodup_candidates target).filterMap ?_).filter _
  intro id id' c hid hid'
  exact (Table.key_of_lookup hid).symm.trans (Table.key_of_lookup hid')

/-- Indexes that are in line with the table are as good as it. -/
theorem routes_of_indexed (hi : h.Indexed) : h.Routes := by
  have hlive : ∀ c ∈ h.conns, (h.conn c.id).isSome := by
    intro c hc
    have hfind : h.conn c.id = some c := Table.lookup_of_mem hi.keyed hc
    rw [hfind]
    rfl
  refine ⟨hi.mem_accepting, ?_, hi.total, ?_, ?_⟩
  · intro target origin
    have hconns : h.conns.Nodup := List.Nodup.of_map _ hi.keyed
    refine ((List.perm_ext_iff_of_nodup (hi.nodup_accepting target origin)
      (hconns.filter _)).2 fun c => ?_).length_eq
    rw [hi.mem_accepting, List.mem_filter]
  · intro room b hb
    refine ⟨fun hnil => hi.roomsTidy.nonempty room (hnil ▸ hb), fun id hid => ?_⟩
    have hbucket : id ∈ h.byRoom.bucket room := by
      rw [Buckets.bucket, hb]
      exact hid
    rcases (hi.rooms room id).1 hbucket with ⟨c, hc, rfl, -⟩
    exact hlive c hc
  · intro wallet b hb
    refine ⟨fun hnil => hi.usersTidy.nonempty wallet (hnil ▸ hb), fun id hid => ?_⟩
    have hbucket : id ∈ h.byUser.bucket wallet := by
      rw [Buckets.bucket, hb]
      exact hid
    rcases (hi.users wallet id).1 hbucket with ⟨c, hc, rfl, -⟩
    exact hlive c hc

end Hub

/-! ### Runs -/

/-- A hub, the numbers that have been given out and not been registered, and the next one. -/
structure Exchange where
  hub : Hub
  drawn : List Nat
  next : Nat

/-- What is asked of a hub. A connection is registered under a number that was drawn for it. -/
inductive HubCall where
  | nextConnId
  | register (c : ConnHandle)
  | unregister (id : Nat)
  | setUserView (wallet : WalletAddress) (view : ConnView)

namespace Exchange

def start : Exchange := ⟨.empty, [], 1⟩

def call (x : Exchange) : HubCall → Exchange
  | .nextConnId => { x with drawn := x.drawn ++ [x.next], next := x.next + 1 }
  | .register c =>
      if x.drawn.contains c.id then
        { x with hub := x.hub.admitted c, drawn := x.drawn.erase c.id }
      else x
  | .unregister id => { x with hub := x.hub.unregister id }
  | .setUserView wallet view => { x with hub := x.hub.setUserView wallet view }

/-- The indexes are in line, and a number that has been drawn is not in use. -/
structure Inv (x : Exchange) : Prop where
  indexed : x.hub.Indexed
  nodup : x.drawn.Nodup
  unused : ∀ id ∈ x.drawn, id ∉ x.hub.ids
  drawnBelow : ∀ id ∈ x.drawn, id < x.next
  idsBelow : ∀ id ∈ x.hub.ids, id < x.next

theorem inv_start : start.Inv := by
  refine ⟨Hub.indexed_empty, List.nodup_nil, ?_, ?_, ?_⟩
  · intro id hid
    cases hid
  · intro id hid
    cases hid
  · intro id hid
    cases hid

-- A new number is none of those that are out.
theorem inv_nextConnId {x : Exchange} (h : x.Inv) : (x.call .nextConnId).Inv := by
  refine ⟨h.indexed, ?_, ?_, ?_, ?_⟩
  · refine List.nodup_append.2 ⟨h.nodup, List.nodup_singleton _, ?_⟩
    intro a ha b hb
    have hlt := h.drawnBelow a ha
    rw [List.mem_singleton.1 hb]
    omega
  · intro id hid hused
    rcases List.mem_append.1 hid with hid | hid
    · exact h.unused id hid hused
    · have hlt := h.idsBelow id hused
      rw [List.mem_singleton.1 hid] at hlt
      omega
  · intro id hid
    rcases List.mem_append.1 hid with hid | hid
    · exact Nat.lt_succ_of_lt (h.drawnBelow id hid)
    · rw [List.mem_singleton.1 hid]
      exact Nat.lt_succ_self x.next
  · intro id hid
    exact Nat.lt_succ_of_lt (h.idsBelow id hid)

-- A number that is registered is used up.
theorem inv_register {x : Exchange} (h : x.Inv) (c : ConnHandle) : (x.call (.register c)).Inv := by
  by_cases hdrawn : x.drawn.contains c.id = true
  · have hcall : x.call (.register c) =
        { x with hub := x.hub.admitted c, drawn := x.drawn.erase c.id } := if_pos hdrawn
    have hid : c.id ∈ x.drawn := by simpa using hdrawn
    have hnew : x.hub.conn c.id = none := Hub.conn_eq_none.2 (h.unused c.id hid)
    have hkept : ∀ i ∈ x.drawn.erase c.id, i ≠ c.id ∧ i ∈ x.drawn :=
      fun i hi => h.nodup.mem_erase_iff.1 hi
    have hbelow : ∀ i ∈ x.drawn.erase c.id, i < x.next :=
      fun i hi => h.drawnBelow i (hkept i hi).2
    rw [hcall, Hub.admitted]
    cases hreg : x.hub.register c with
    | error e =>
        exact ⟨h.indexed, h.nodup.erase _, fun i hi => h.unused i (hkept i hi).2, hbelow,
          h.idsBelow⟩
    | ok h' =>
        have hids : h'.ids = x.hub.ids ++ [c.id] := Hub.ids_register hnew hreg
        refine ⟨Hub.indexed_register h.indexed hnew hreg, h.nodup.erase _, ?_, hbelow, ?_⟩
        · intro i hi hused
          dsimp only at hused
          rw [hids] at hused
          rcases List.mem_append.1 hused with hused | hused
          · exact h.unused i (hkept i hi).2 hused
          · exact (hkept i hi).1 (List.mem_singleton.1 hused)
        · intro i hi
          dsimp only at hi
          rw [hids] at hi
          rcases List.mem_append.1 hi with hi | hi
          · exact h.idsBelow i hi
          · rw [List.mem_singleton.1 hi]
            exact h.drawnBelow c.id hid
  · have hcall : x.call (.register c) = x := if_neg hdrawn
    rw [hcall]
    exact h

/-- Every call keeps the indexes in line. -/
theorem inv_call (x : Exchange) (c : HubCall) (h : x.Inv) : (x.call c).Inv := by
  cases c with
  | nextConnId => exact inv_nextConnId h
  | register c => exact inv_register h c
  | unregister id =>
      have hsub : ∀ i ∈ (x.hub.unregister id).ids, i ∈ x.hub.ids :=
        fun i hi => Hub.mem_ids_unregister hi
      exact ⟨Hub.indexed_unregister h.indexed id, h.nodup,
        fun i hi hused => h.unused i hi (hsub i hused), h.drawnBelow,
        fun i hi => h.idsBelow i (hsub i hi)⟩
  | setUserView wallet view =>
      have hsame := Hub.ids_setUserView (h := x.hub) wallet view
      refine ⟨Hub.indexed_setUserView h.indexed wallet view, h.nodup, ?_, h.drawnBelow, ?_⟩
      · intro i hi
        dsimp only [call]
        rw [hsame]
        exact h.unused i hi
      · intro i hi
        dsimp only [call] at hi
        rw [hsame] at hi
        exact h.idsBelow i hi

/-- In every run from a new hub the recipients of every event, as the indexes have them, are
    the live connections that accept it, and no index has anything else. -/
theorem routes_throughout (cs : List HubCall) :
    Run.Throughout call (fun x => x.hub.Routes) start cs := by
  refine (Run.throughout_iff_prefix start cs).2 fun pre _ => ?_
  exact Hub.routes_of_indexed (Run.run_inv inv_call start pre inv_start).indexed

end Exchange

end PocketSkynet
