import LeKV.Kv.FreshCount

/-!
# What a failed migration leaves behind

A `DoLoadBalance` that returns `false` changes no route and touches no file. But it counts the keys
of its target whether or not they were transferred, so the statistics that `Stop` reports are the
sum over the attempted migrations.
-/

namespace LeKV

open Bytes BinaryProtocol Effects Balancer

/-- The operations on files. -/
def Balancer.IsFile : MasterOp → Prop
  | .openTmp => True
  | .writeTmp _ => True
  | .renameTmp => True
  | _ => False

/-- The key count of the tablet that `DoLoadBalance` wants to move, if there is one. -/
def targetCount (tablets : List Tablet) : List UInt64 :=
  match balanceTarget tablets with
  | none => []
  | some (target, _) => [(tablets[target]?.map Tablet.keyCount).getD 0]

namespace Environment

variable {σ : Type} (E : Environment σ) (m : Master) (s : σ)

/-- The key counts of the tablets whose migration in this `DoLoadBalance` ended with `ok`. -/
def migrated (ok : Bool) : List UInt64 :=
  if (E.run doLoadBalance (m, s)).1 = some ok then targetCount m.tablets else []

/-- A `DoLoadBalance` that changes nothing, in memory or in a file. -/
structure LeavesAll : Prop where
  routing : SameRouting m (E.run doLoadBalance (m, s)).2.1
  files : ∀ x ∈ E.visits doLoadBalance (m, s), ¬IsFile x.1
  transferCount : (E.run doLoadBalance (m, s)).2.1.transferCount = m.transferCount
  transferTimeMs : (E.run doLoadBalance (m, s)).2.1.transferTimeMs = m.transferTimeMs

/-- A failed `DoLoadBalance` changes nothing. -/
def FailsClean : Prop := (E.run doLoadBalance (m, s)).1 = some false → E.LeavesAll m s

/-- There is a target, and its data is not transferred. -/
def TransferFails : Prop :=
  ∃ target dst t, balanceTarget m.tablets = some (target, dst) ∧ m.tablets[target]? = some t ∧
    (E.run (scanAndTransferData t.nodeId dst t.startKey t.endKey) (m, (E.now s).2)).1 = some false

end Environment

/-! ## The target -/

/-- The target is a tablet with keys on another node than the destination. -/
theorem getElem?_of_balanceTarget {tablets : List Tablet} {target : ℕ} {dst : UInt32}
    (h : balanceTarget tablets = some (target, dst)) :
    ∃ t, tablets[target]? = some t ∧ t.nodeId ≠ dst ∧ t.keyCount ≠ 0 ∧
      targetCount tablets = [t.keyCount] := by
  have hne : tablets ≠ [] := by
    rintro rfl
    exact absurd h (by simp [balanceTarget])
  rcases balanceTarget_spec hne with ⟨hnone, -⟩ | ⟨idx, t, dst', hsome, hidx, htarget⟩
  · exact absurd (hnone.symm.trans h) (by simp)
  obtain ⟨rfl, rfl⟩ := Prod.mk.inj (Option.some.inj (hsome.symm.trans h))
  refine ⟨t, hidx, ?_, ?_, ?_⟩
  · intro heq
    have hgap := htarget.gap
    rw [heq] at hgap
    omega
  · exact (UInt64.pos_iff_ne_zero.mp htarget.pos)
  · rw [targetCount, h]
    dsimp only
    rw [hidx]
    rfl

section Migrate

variable {σ : Type} {E : Environment σ} {m : Master} {s : σ} {idx : ℕ} {dst : UInt32} {t : Tablet}

/-- What follows a transfer returns `true`, if it ends. -/
theorem returns_afterTransfer (node : UInt32) (start end_ : Bytes) :
    (do saveTablets
        let _deleted ← sendDeleteRange node start end_
        return true : Balancer Bool).Returns fun ok => ok = true :=
  (Prog.returns_true saveTablets).bind fun _ _ =>
    (Prog.returns_true (sendDeleteRange node start end_)).bind fun _ _ => rfl

/-- A migration fails where its transfer does. It leaves the members alone and touches no file. -/
theorem migrateTablet_false_iff (hidx : m.tablets[idx]? = some t) (hne : t.nodeId ≠ dst) :
    ((E.run (migrateTablet idx dst) (m, s)).1 = some false ↔
      (E.run (scanAndTransferData t.nodeId dst t.startKey t.endKey) (m, s)).1 = some false) ∧
      ((E.run (migrateTablet idx dst) (m, s)).1 = some false →
        (E.run (migrateTablet idx dst) (m, s)).2.1 = m ∧
          ∀ x ∈ E.visits (migrateTablet idx dst) (m, s), ¬IsFile x.1) := by
  obtain ⟨ok, s₁, hscan, -⟩ := Environment.run_of_uses (E := E)
    (scanAndTransferData_uses t.nodeId dst t.startKey t.endKey) (keepsRpc_true E) m (s := s) trivial
  have hrun := Environment.run_migrateTablet (E := E) hidx hne hscan
  rw [hrun, hscan]
  cases ok with
  | true =>
    have hresult : (E.run (do saveTablets
                              let _deleted ← sendDeleteRange t.nodeId t.startKey t.endKey
                              return true) (m.moveTo idx dst, s₁)).1 ≠ some false := fun hfalse =>
      Bool.false_ne_true ((returns_afterTransfer t.nodeId t.startKey t.endKey).run
        (Prod.ext hfalse rfl))
    rw [if_pos rfl]
    exact ⟨iff_of_false hresult (by simp), fun h => absurd h hresult⟩
  | false =>
    refine ⟨iff_of_true rfl rfl, fun _ => ⟨rfl, fun x hx => ?_⟩⟩
    unfold migrateTablet at hx
    rw [Environment.visits_get] at hx
    rcases List.mem_cons.mp hx with rfl | hx
    · exact id
    simp only [hidx, if_neg hne] at hx
    rcases (Environment.mem_visits_bind_some hscan).mp hx with hx | hx
    · have hrpc := (Environment.visits_of_uses (scanAndTransferData_uses _ _ _ _)
        (keepsRpc_true E) trivial hx).1
      obtain ⟨o, w⟩ := x
      cases o <;> first | exact hrpc.elim | exact id
    · exact absurd hx List.not_mem_nil

end Migrate

/-! ## The four ways through `DoLoadBalance` -/

section Balance

variable {σ : Type} {E : Environment σ} {m : Master} {s : σ}

/-- How a `DoLoadBalance` ends: without a target, after a transfer that failed, after a migration, or
cut off in the middle of one. -/
inductive BalanceEnds (E : Environment σ) (m : Master) (s : σ) : Prop where
  | idle (htarget : balanceTarget m.tablets = none)
      (hrun : E.run doLoadBalance (m, s) = (some false, (m, s)))
      (hfiles : ∀ x ∈ E.visits doLoadBalance (m, s), ¬IsFile x.1)
  | failed {count time : UInt64} {s' : σ} (hfails : E.TransferFails m s) (hcount : count ≠ 0)
      (htarget : targetCount m.tablets = [count])
      (hrun : E.run doLoadBalance (m, s) = (some false, ({ m with
        transferCount := m.transferCount + count, transferTimeMs := time }, s')))
      (hfiles : ∀ x ∈ E.visits doLoadBalance (m, s), ¬IsFile x.1)
  | moved {count : UInt64} {m' : Master} {s' : σ} (hfails : ¬E.TransferFails m s)
      (htarget : targetCount m.tablets = [count])
      (hrun : E.run doLoadBalance (m, s) = (some true, (m', s')))
      (hcount : m'.transferCount = m.transferCount + count)
  | cut {m' : Master} {s' : σ} (hfails : ¬E.TransferFails m s)
      (hrun : E.run doLoadBalance (m, s) = (none, (m', s')))
      (hcount : m'.transferCount = m.transferCount)

theorem transferFails_iff {target : ℕ} {dst : UInt32}
    (h : balanceTarget m.tablets = some (target, dst)) :
    E.TransferFails m s ↔ (E.run (migrateTablet target dst) (m, (E.now s).2)).1 = some false := by
  obtain ⟨t, hidx, hne, -⟩ := getElem?_of_balanceTarget h
  rw [(migrateTablet_false_iff hidx hne).1]
  constructor
  · rintro ⟨target', dst', t', h', hidx', hfails⟩
    obtain ⟨rfl, rfl⟩ := Prod.mk.inj (Option.some.inj (h.symm.trans h'))
    obtain rfl := Option.some.inj (hidx.symm.trans hidx')
    exact hfails
  · exact fun hfails => ⟨target, dst, t, h, hidx, hfails⟩

/-- Every `DoLoadBalance` ends in one of these ways. -/
theorem balanceEnds (E : Environment σ) (m : Master) (s : σ) : BalanceEnds E m s := by
  rcases htarget : balanceTarget m.tablets with _ | ⟨target, dst⟩
  · refine .idle htarget (Environment.run_doLoadBalance_none htarget) fun x hx => ?_
    unfold doLoadBalance at hx
    rw [Environment.visits_get, htarget] at hx
    rw [List.mem_singleton.mp hx]
    exact id
  obtain ⟨t, hidx, hne, hpos, hcount⟩ := getElem?_of_balanceTarget htarget
  have hfails := transferFails_iff (E := E) (s := s) htarget
  obtain ⟨r, s', -, ⟨rfl, hrun⟩ | ⟨hr, -, -, hrun⟩⟩ := Environment.run_migrateTablet_members
    (keepsRpc_true E) (keepsFiles_true E) m (s := (E.now s).2) trivial target dst
  · -- the migration returned `false`
    have hdone := Environment.run_doLoadBalance_done htarget hrun
    rw [hidx] at hdone
    refine .failed (hfails.mpr (congrArg Prod.fst hrun)) hpos hcount hdone fun x hx => ?_
    have hclean := ((migrateTablet_false_iff (E := E) (s := (E.now s).2) hidx hne).2
      (congrArg Prod.fst hrun)).2
    unfold doLoadBalance at hx
    rw [Environment.visits_get] at hx
    rcases List.mem_cons.mp hx with rfl | hx
    · exact id
    simp only [htarget, Environment.visits_now] at hx
    rcases List.mem_cons.mp hx with rfl | hx
    · exact id
    rcases (Environment.mem_visits_bind_some hrun).mp hx with hx | hx
    · exact hclean x hx
    rw [Environment.visits_now, Environment.visits_modify] at hx
    rcases List.mem_cons.mp hx with rfl | hx
    · exact id
    · rw [List.mem_singleton.mp hx]
      exact id
  · -- the data went over and the routing changed; only writing the file can still cut this off
    have hsucceeds : ¬E.TransferFails m s := fun h => hr <| by
      rw [hfails, hrun] at h
      exact h
    rcases r with _ | ok
    · exact .cut hsucceeds (Environment.run_doLoadBalance_cut htarget hrun) rfl
    · have hdone := Environment.run_doLoadBalance_done htarget hrun
      have htrue : ok = true := by
        cases ok with
        | true => rfl
        | false => exact absurd rfl hr
      have hmoved : ((m.moveTo target dst).tablets[target]?.map Tablet.keyCount).getD 0
          = t.keyCount := by
        rw [Master.moveTo, List.getElem?_modify, hidx]
        simp
      rw [htrue] at hdone
      refine .moved hsucceeds hcount hdone ?_
      rw [hmoved]
      rfl

theorem migrated_eq_nil_iff (ok : Bool) :
    E.migrated m s ok = [] ↔ balanceTarget m.tablets = none ∨ (E.run doLoadBalance (m, s)).1 ≠ some ok := by
  unfold Environment.migrated targetCount
  split_ifs with hresult
  · rcases balanceTarget m.tablets with _ | ⟨target, dst⟩ <;> simp [hresult]
  · exact iff_of_true rfl (.inr hresult)

/-- A failed `DoLoadBalance` leaves the routes and the files alone. -/
theorem sameRouting_of_failed (h : (E.run doLoadBalance (m, s)).1 = some false) :
    SameRouting m (E.run doLoadBalance (m, s)).2.1 ∧
      ∀ x ∈ E.visits doLoadBalance (m, s), ¬IsFile x.1 := by
  cases balanceEnds E m s with
  | idle _ hrun hfiles =>
    rw [hrun]
    exact ⟨⟨rfl, rfl, rfl⟩, hfiles⟩
  | failed _ _ _ hrun hfiles =>
    rw [hrun]
    exact ⟨⟨rfl, rfl, rfl⟩, hfiles⟩
  | moved _ _ hrun _ =>
    rw [hrun] at h
    exact absurd h (by simp)
  | cut _ hrun _ =>
    rw [hrun] at h
    exact absurd h (by simp)

theorem Environment.TransferFails.result (h : E.TransferFails m s) :
    (E.run doLoadBalance (m, s)).1 = some false := by
  cases balanceEnds E m s with
  | idle _ hrun _ => exact congrArg Prod.fst hrun
  | failed _ _ _ hrun _ => exact congrArg Prod.fst hrun
  | moved hfails _ _ _ => exact absurd h hfails
  | cut hfails _ _ => exact absurd h hfails

/-- It leaves everything alone, exactly where no transfer failed. -/
theorem failsClean_iff_not_transferFails : E.FailsClean m s ↔ ¬E.TransferFails m s := by
  unfold Environment.FailsClean
  cases balanceEnds E m s with
  | idle htarget hrun hfiles =>
    refine iff_of_true (fun _ => ⟨?_, hfiles, ?_, ?_⟩) ?_
    · rw [hrun]
      exact ⟨rfl, rfl, rfl⟩
    · rw [hrun]
    · rw [hrun]
    · rintro ⟨target, dst, t, htarget', -⟩
      exact absurd (htarget.symm.trans htarget') (by simp)
  | failed hfails hcount _ hrun _ =>
    refine iff_of_false (fun hclean => ?_) (not_not.mpr hfails)
    have hsame := (hclean (congrArg Prod.fst hrun)).transferCount
    rw [hrun] at hsame
    exact hcount (add_eq_left.mp hsame)
  | moved hfails _ hrun _ =>
    refine iff_of_true (fun h => ?_) hfails
    rw [hrun] at h
    exact absurd h (by simp)
  | cut hfails hrun _ =>
    refine iff_of_true (fun h => ?_) hfails
    rw [hrun] at h
    exact absurd h (by simp)

theorem migrated_false_eq_nil (h : ¬E.TransferFails m s) : E.migrated m s false = [] := by
  rw [migrated_eq_nil_iff]
  cases balanceEnds E m s with
  | idle htarget _ _ => exact .inl htarget
  | failed hfails _ _ _ _ => exact absurd hfails h
  | moved _ _ hrun _ =>
    rw [hrun]
    exact .inr (by simp)
  | cut _ hrun _ =>
    rw [hrun]
    exact .inr (by simp)

/-- `DoLoadBalance` counts its target, however the migration ended. -/
theorem transferCount_balance :
    (E.run doLoadBalance (m, s)).2.1.transferCount
      = m.transferCount + (E.migrated m s true).sum + (E.migrated m s false).sum := by
  unfold Environment.migrated
  cases balanceEnds E m s with
  | idle htarget hrun _ =>
    rw [hrun, targetCount, htarget]
    simp
  | failed _ _ htarget hrun _ =>
    rw [hrun, htarget]
    simp
  | moved _ htarget hrun hcount =>
    rw [hrun, htarget]
    simpa using hcount
  | cut _ hrun hcount =>
    rw [hrun]
    simpa using hcount

end Balance

/-! ## Runs -/

/-- Runs of the balancer, each step in an environment of its own and every `DoLoadBalance` under the
condition `C`: the members, and the key counts of the tablets whose migration succeeded and of those
whose migration failed. -/
inductive Transfers (C : ∀ σ : Type, Environment σ → Master → σ → Prop) :
    Master → (moved failed : List UInt64) → Prop where
  | start {m : Master} (h : m.transferCount = 0) : Transfers C m [] []
  | sync {m : Master} {moved failed : List UInt64} (h : Transfers C m moved failed) {σ : Type}
      (E : Environment σ) (s : σ) : Transfers C (BalancerAction.sync.after E m s) moved failed
  | split {m : Master} {moved failed : List UInt64} (h : Transfers C m moved failed) {σ : Type}
      (E : Environment σ) (s : σ) (idx : ℕ) :
      Transfers C ((BalancerAction.split idx).after E m s) moved failed
  | balance {m : Master} {moved failed : List UInt64} (h : Transfers C m moved failed) {σ : Type}
      (E : Environment σ) (s : σ) (hC : C σ E m s) :
      Transfers C (BalancerAction.balance.after E m s) (moved ++ E.migrated m s true)
        (failed ++ E.migrated m s false)

section Runs

variable {σ : Type} (E : Environment σ) (m : Master) (s : σ)

theorem transferCount_sync : (BalancerAction.sync.after E m s).transferCount = m.transferCount := by
  obtain ⟨ts, s', hrun, -, -⟩ := Environment.run_syncAllTabletStats (keepsRpc_true E).keepsQuery m
    (boundaries_true _) (s := s) trivial
  rw [BalancerAction.after, BalancerAction.prog, Environment.run_bind_some hrun]
  rfl

theorem transferCount_split (idx : ℕ) :
    ((BalancerAction.split idx).after E m s).transferCount = m.transferCount := by
  rw [BalancerAction.after, BalancerAction.prog]
  obtain ⟨s', -, hrun | ⟨old, keyCount, median, r, -, -, -, -, hrun⟩⟩ :=
    Environment.run_trySplitTablet (keepsRpc_true E).keepsQuery (keepsFiles_true E) m
      (boundaries_true _) (s := s) trivial idx
  · rw [hrun]
  · rw [hrun]
    rfl

end Runs

variable {C : ∀ σ : Type, Environment σ → Master → σ → Prop} {m : Master} {moved failed : List UInt64}

/-- The counter is the sum over all attempted migrations. -/
theorem Transfers.transferCount_eq (h : Transfers C m moved failed) :
    m.transferCount = moved.sum + failed.sum := by
  induction h with
  | start h => exact h
  | sync _ E s ih => exact (transferCount_sync E _ s).trans ih
  | split _ E s idx ih => exact (transferCount_split E _ s idx).trans ih
  | @balance m moved failed _ σ E s _ ih =>
    have hstep := transferCount_balance (E := E) (m := m) (s := s)
    rw [ih] at hstep
    rw [BalancerAction.after, BalancerAction.prog, hstep, List.sum_append, List.sum_append]
    ac_rfl

/-- Where no transfer fails, nothing is counted for one that failed. -/
theorem Transfers.failed_eq_nil (h : Transfers C m moved failed)
    (hC : ∀ σ E m s, C σ E m s → ¬E.TransferFails m s) : failed = [] := by
  induction h with
  | start _ => rfl
  | sync _ _ _ ih => exact ih
  | split _ _ _ _ ih => exact ih
  | balance _ E s hstep ih => rw [ih, migrated_false_eq_nil (hC _ E _ s hstep), List.append_nil]

/-- A `DoLoadBalance` that returns `false` leaves the routes and the files alone. It leaves the
transfer statistics alone exactly where no target's transfer failed, and over a run without such
failures they are the sum over the migrations that succeeded. In other runs they are the sum over
all that were attempted. -/
theorem failsClean_iff {σ : Type} (E : Environment σ) (m : Master) (s : σ) :
    ((E.run doLoadBalance (m, s)).1 = some false →
      SameRouting m (E.run doLoadBalance (m, s)).2.1 ∧
        ∀ x ∈ E.visits doLoadBalance (m, s), ¬IsFile x.1) ∧
    (E.FailsClean m s ↔ ¬E.TransferFails m s) ∧
    (∀ m moved failed, Transfers (fun _ E m s => ¬E.TransferFails m s) m moved failed →
      m.transferCount = moved.sum) ∧
    ∀ m moved failed, Transfers (fun _ _ _ _ => True) m moved failed →
      (m.transferCount = moved.sum ↔ failed.sum = 0) := by
  refine ⟨sameRouting_of_failed, failsClean_iff_not_transferFails, ?_, ?_⟩
  · intro m moved failed h
    rw [h.transferCount_eq, h.failed_eq_nil fun _ _ _ _ hC => hC, List.sum_nil, add_zero]
  · intro m moved failed h
    rw [h.transferCount_eq, add_eq_left]

/-! ## A migration without a connection -/

/-- An environment without connections. -/
def disconnected : Environment Unit where
  isConnected _ _ := false
  send _ _ s := (false, s)
  recvFrame _ _ s := (none, s)
  openTmp s := (true, s)
  writeTmp _ s := s
  renameTmp s := (true, s)
  now s := (0, s)

/-- With nine keys on the first node, the first tablet is to be moved, and its transfer fails. -/
theorem transferFails_disconnected : disconnected.TransferFails (countedFirst 9) () :=
  ⟨0, 3, ⟨1, [], [0x6D], 2, 9⟩, by decide, by decide, rfl⟩

/-- Its nine keys are counted. -/
theorem not_failsClean_disconnected :
    ¬∀ m, Reachable twoNodes m → disconnected.FailsClean m () := fun hall =>
  failsClean_iff_not_transferFails.mp (hall _ (reachable_counted (by decide) (by decide) _))
    transferFails_disconnected

/-- The routes and the files stay as they are. -/
theorem failsClean_iff_disconnected :
    SameRouting (countedFirst 9) (disconnected.run doLoadBalance (countedFirst 9, ())).2.1 ∧
      ∀ x ∈ disconnected.visits doLoadBalance (countedFirst 9, ()), ¬IsFile x.1 :=
  (failsClean_iff disconnected (countedFirst 9) ()).1 transferFails_disconnected.result

end LeKV
