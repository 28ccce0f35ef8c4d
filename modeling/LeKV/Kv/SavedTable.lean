import LeKV.Kv.RequestPairing
import LeKV.Kv.Tiling

/-!
# Saving the routing table and loading it again

`SaveTablets` on the files of a cluster, step by step, and `LoadTablets` on what it leaves.
`roundTrips_iff` says when a saved table is loaded as it was: when all its boundaries are valid
UTF-8. On any other table `dump` throws.
-/

namespace LeKV

open Bytes BinaryProtocol Balancer

/-- The temporary file is opened, and empty. -/
def Cluster.tmpOpened (s : Cluster) : Cluster :=
  { s with files := { s.files with tmp := some .torn } }

/-- The text is written to the temporary file, as far as that works. -/
def Cluster.tmpWritten (s : Cluster) (text : SavedText) : Cluster :=
  { s with files := { s.files with tmp := some (if s.outcomes.writes then .text text else .torn) } }

/-- The temporary file takes the place of the saved table, if that works. -/
def Cluster.tmpRenamed (s : Cluster) : Cluster :=
  if s.outcomes.renames then { s with files := ⟨s.files.tmp, none⟩ } else s

/-- `SaveTablets` in a cluster. -/
theorem run_saveTablets_eq (m : Master) (s : Cluster) :
    Cluster.env.run saveTablets (m, s) =
      if s.outcomes.opens then
        match dump (document m) with
        | none => (none, (m, s.tmpOpened))
        | some text => (some (), (m, (s.tmpOpened.tmpWritten text).tmpRenamed))
      else (some (), (m, s)) := by
  unfold saveTablets
  rw [Environment.run_get, Environment.run_openTmp]
  show Cluster.env.run (if ¬s.outcomes.opens = true then _ else _)
    (m, if s.outcomes.opens then s.tmpOpened else s) = _
  by_cases hopens : s.outcomes.opens = true
  · rw [if_neg (not_not.mpr hopens), if_pos hopens, if_pos hopens]
    rcases dump (document m) with _ | text <;> rfl
  · rw [if_pos hopens, if_neg hopens, if_neg hopens]
    rfl

/-- What the operations of `SaveTablets` find in a cluster. -/
theorem cluster_of_visits_saveTablets {m : Master} {s : Cluster} {x : MasterOp × (Master × Cluster)}
    (h : x ∈ Cluster.env.visits saveTablets (m, s)) :
    x.2.1 = m ∧ (x.2.2 = s ∨ s.outcomes.opens = true ∧ (x.2.2 = s.tmpOpened ∨
      ∃ text, dump (document m) = some text ∧ x.2.2 = s.tmpOpened.tmpWritten text)) := by
  have hopened : Cluster.env.openTmp s
      = (s.outcomes.opens, if s.outcomes.opens then s.tmpOpened else s) := rfl
  rw [Environment.visits_saveTablets, hopened] at h
  rcases List.mem_cons.mp h with rfl | h
  · exact ⟨rfl, .inl rfl⟩
  rcases List.mem_cons.mp h with rfl | h
  · exact ⟨rfl, .inl rfl⟩
  by_cases hopens : s.outcomes.opens = true
  · simp only [hopens, if_true] at h
    rcases hdump : dump (document m) with _ | text
    · rw [hdump] at h
      rw [List.mem_singleton.mp h]
      exact ⟨rfl, .inr ⟨hopens, .inl rfl⟩⟩
    · rw [hdump] at h
      rcases List.mem_cons.mp h with rfl | h
      · exact ⟨rfl, .inr ⟨hopens, .inl rfl⟩⟩
      · rw [List.mem_singleton.mp h]
        exact ⟨rfl, .inr ⟨hopens, .inr ⟨text, rfl, rfl⟩⟩⟩
  · rw [if_neg hopens] at h
    exact absurd h List.not_mem_nil

/-- What `SaveTablets` comes to: the file is as it was, `dump` threw, the file holds the new table, or
it holds a part of its text. -/
inductive SaveOutcome where
  | kept
  | threw
  | saved
  | torn
deriving DecidableEq, Repr

/-- The outcome for the table of `m`, from those of the file steps. -/
def saveOutcome (o : FileOutcomes) (m : Master) : SaveOutcome :=
  if o.opens = false then .kept
  else if ¬(document m).Dumpable then .threw
  else if o.renames = false then .kept
  else if o.writes then .saved
  else .torn

/-- `tablets.json` after `SaveTablets`. -/
def savedFile (o : FileOutcomes) (m : Master) (file : Option FileContent) : Option FileContent :=
  match saveOutcome o m with
  | .kept => file
  | .threw => file
  | .saved => (dump (document m)).map .text
  | .torn => some .torn

/-- The end of `SaveTablets`, by its outcome. -/
theorem run_saveTablets_outcome (m : Master) (s : Cluster) :
    ∃ s', Cluster.env.run saveTablets (m, s)
        = (if saveOutcome s.outcomes m = .threw then none else some (), (m, s')) ∧
      s'.nodes = s.nodes ∧ s'.connections = s.connections ∧
      s'.files.file = savedFile s.outcomes m s.files.file := by
  rw [run_saveTablets_eq]
  unfold savedFile saveOutcome
  obtain ⟨nodes, connections, files, ⟨opens, writes, renames⟩, clock⟩ := s
  cases opens with
  | false => exact ⟨_, rfl, rfl, rfl, rfl⟩
  | true =>
    by_cases hdump : (document m).Dumpable
    swap
    · have hnone : dump (document m) = none := dif_neg hdump
      simp only [hnone, hdump]
      exact ⟨_, rfl, rfl, rfl, rfl⟩
    have htext : dump (document m) = some ⟨document m, hdump⟩ := dif_pos hdump
    simp only [htext, hdump]
    cases renames with
    | false => exact ⟨_, rfl, rfl, rfl, rfl⟩
    | true => cases writes <;> exact ⟨_, rfl, rfl, rfl, rfl⟩

/-- Until its last step, `SaveTablets` leaves the file as it is. -/
theorem always_saveTablets (m : Master) (s : Cluster)
    (J : Option FileContent → (UInt32 → DataNode) → Prop) :
    Cluster.env.Always saveTablets (fun w => J w.2.files.file w.2.nodes) (m, s) ↔
      J s.files.file s.nodes ∧ J (savedFile s.outcomes m s.files.file) s.nodes := by
  obtain ⟨s', hrun, hnodes, -, hfile⟩ := run_saveTablets_outcome m s
  constructor
  · intro h
    have hlast := h.last hrun
    rw [hfile, hnodes] at hlast
    exact ⟨h.start, hlast⟩
  · rintro ⟨hstart, hlast⟩
    rw [← hfile, ← hnodes] at hlast
    intro w hw
    rcases (Effects.Prog.mem_trace _).mp hw with ⟨o, hvisit⟩ | rfl
    · obtain ⟨-, hs | ⟨-, hs | ⟨text, -, hs⟩⟩⟩ :=
        cluster_of_visits_saveTablets (x := (o, w)) hvisit
      · rw [hs]
        exact hstart
      · rw [hs]
        exact hstart
      · rw [hs]
        exact hstart
    · rw [show Effects.Prog.run Cluster.env.handler _ _ = _ from hrun]
      exact hlast

/-- What is saved now is loaded as it was, whatever members the loading Master has. -/
def RoundTrips (m : Master) (s : Cluster) : Prop :=
  ∃ s', Cluster.env.run saveTablets (m, s) = (some (), (m, s')) ∧
    ∀ m₀, loadTablets s'.files.file m₀ = (true,
      { m₀ with nextTabletId := m.nextTabletId, epoch := m.epoch, tablets := m.tablets })

/-- Where the file operations succeed, a table is saved and loaded as it was exactly when its
boundaries are valid UTF-8. -/
theorem roundTrips_iff {m : Master} {s : Cluster} (hfiles : s.outcomes = ⟨true, true, true⟩) :
    RoundTrips m s ↔
      ∀ t ∈ m.tablets, validUtf8 t.startKey = true ∧ validUtf8 t.endKey = true := by
  have hrun := run_saveTablets_eq m s
  rw [hfiles, if_pos rfl] at hrun
  by_cases hdump : (document m).Dumpable
  · refine iff_of_true ?_ hdump
    have htext : dump (document m) = some ⟨document m, hdump⟩ := dif_pos hdump
    rw [htext] at hrun
    refine ⟨_, hrun, fun m₀ => ?_⟩
    have hfile : (s.tmpOpened.tmpWritten ⟨document m, hdump⟩).tmpRenamed.files.file
        = some (.text ⟨document m, hdump⟩) := by
      simp [Cluster.tmpRenamed, Cluster.tmpWritten, Cluster.tmpOpened, hfiles]
    rw [hfile]
    rfl
  · refine iff_of_false ?_ hdump
    rintro ⟨s', hrun', -⟩
    have hthrows : dump (document m) = none := dif_neg hdump
    rw [hthrows] at hrun
    exact absurd (congrArg Prod.fst (hrun.symm.trans hrun')) (by simp)

/-- The table after a split at `g` is saved and loaded. -/
theorem roundTrips_afterSplit : RoundTrips (afterSplit [0x67]) Cluster.quiet :=
  (roundTrips_iff rfl).mpr (by decide)

/-- After a split at a key that is not UTF-8, `SaveTablets` throws. -/
theorem not_roundTrips_binary : ¬∀ (peers : List PeerInfo) (m : Master) (s : Cluster),
    Reachable peers m → s.outcomes = ⟨true, true, true⟩ → RoundTrips m s := by
  intro hall
  obtain ⟨s', hrun, -⟩ :=
    hall twoNodes _ Cluster.quiet (reachable_afterSplit [0x61, 0x80]) rfl
  have hdump : dump (document (afterSplit [0x61, 0x80])) = none := by decide
  rw [run_saveTablets_eq, hdump] at hrun
  exact absurd (congrArg Prod.fst hrun) (by simp [Cluster.quiet])

end LeKV
