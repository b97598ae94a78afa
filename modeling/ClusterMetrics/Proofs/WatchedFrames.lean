import ClusterMetrics.Proofs.Restriction

/-! # What is left of the frames that are watched

A frame holds metrics in three places: in total, of each node, and of each drive. Every record in them is one of a
category. Restricting a frame to some categories leaves theirs as they are and takes away the others of the total and
of the nodes, but no drive. Main statement: of a frame that is watched, just what is selected is left if drives are
selected or the frame lists none (`CommandLine.Watch.narrows_watched`). -/

namespace ClusterMetrics

/-- What is reported of a category. -/
def Category.Metrics : Category → Type
  | scanner => ScannerMetrics
  | disk => DriveMetrics
  | os => OsMetrics
  | batchJobs => BatchJobMetrics
  | siteResync => SiteResyncMetrics
  | network => NetworkMetrics
  | memory => MemoryMetrics
  | cpu => CpuMetrics
  | rpc => RpcMetrics
  | runtime => RuntimeMetrics

theorem CategoryMask.keep_of_has {α : Type} {t : CategoryMask} {c : Category} (h : t.has c = true) (x : Option α) :
    t.keep c x = x := by
  rw [keep, if_pos h]

theorem CategoryMask.keep_of_not_has {α : Type} {t : CategoryMask} {c : Category} (h : t.has c = false)
    (x : Option α) : t.keep c x = Option.none := by
  rw [keep, if_neg (by simp [h])]

namespace MetricBundle

def metrics? (m : MetricBundle) : (c : Category) → Option c.Metrics
  | .scanner => m.scanner
  | .disk => m.disk
  | .os => m.os
  | .batchJobs => m.batchJobs
  | .siteResync => m.siteResync
  | .network => m.network
  | .memory => m.memory
  | .cpu => m.cpu
  | .rpc => m.rpc
  | .runtime => m.runtime

theorem metrics?_restrict (m : MetricBundle) (t : CategoryMask) (c : Category) :
    (m.restrict t).metrics? c = t.keep c (m.metrics? c) := by
  cases c <;> rfl

end MetricBundle

namespace Frame

/-- Where a frame holds metrics. -/
inductive Place where
  | total
  | node (host : String)
  | drive (name : String)
deriving Repr, DecidableEq

/-- The record of a category in a place; of a drive there is only its own. -/
def metrics? (f : Frame) : Place → (c : Category) → Option c.Metrics
  | .total, c => f.total.metrics? c
  | .node host, c => (f.byHost.get? host).bind (·.metrics? c)
  | .drive name, .disk => f.byDisk.get? name
  | .drive _, _ => none

/-- Every record, wherever it is, is of a category selected. -/
def IsWithin (f : Frame) (t : CategoryMask) : Prop := ∀ p c, (f.metrics? p c).isSome → t.has c = true

/-- What becomes of a frame `f` when it is narrowed to some categories. -/
structure Narrows (t : CategoryMask) (f g : Frame) : Prop where
  /-- All that is selected stays, wherever it is. -/
  selected : ∀ p c, t.has c = true → g.metrics? p c = f.metrics? p c
  total : ∀ c, t.has c = false → g.metrics? .total c = none
  node : ∀ host c, t.has c = false → g.metrics? (.node host) c = none
  /-- Drives stay in any case. -/
  byDisk : g.byDisk = f.byDisk
  nodes : g.byHost.entries.map Prod.fst = f.byHost.entries.map Prod.fst
  hosts : g.hosts = f.hosts
  errors : g.errors = f.errors
  isFinal : g.isFinal = f.isFinal

variable {f : Frame} {t : CategoryMask}

theorem metrics?_restrict_total (f : Frame) (t : CategoryMask) (c : Category) :
    (f.restrict t).metrics? .total c = t.keep c (f.metrics? .total c) := f.total.metrics?_restrict t c

theorem metrics?_restrict_node (f : Frame) (t : CategoryMask) (host : String) (c : Category) :
    (f.restrict t).metrics? (.node host) c = t.keep c (f.metrics? (.node host) c) := by
  show ((f.byHost.mapValues (·.restrict t)).get? host).bind (·.metrics? c) = _
  rw [KeyMap.get?_mapValues, metrics?]
  cases f.byHost.get? host with
  | none => exact (ite_self _).symm
  | some m => exact m.metrics?_restrict t c

theorem metrics?_restrict_drive (f : Frame) (t : CategoryMask) (name : String) (c : Category) :
    (f.restrict t).metrics? (.drive name) c = f.metrics? (.drive name) c := by
  cases c <;> rfl

theorem narrows_restrict (f : Frame) (t : CategoryMask) : Narrows t f (f.restrict t) where
  selected p c hc := by
    cases p with
    | total => rw [metrics?_restrict_total, CategoryMask.keep_of_has hc]
    | node host => rw [metrics?_restrict_node, CategoryMask.keep_of_has hc]
    | drive name => exact metrics?_restrict_drive ..
  total c hc := by rw [metrics?_restrict_total, CategoryMask.keep_of_not_has hc]
  node host c hc := by rw [metrics?_restrict_node, CategoryMask.keep_of_not_has hc]
  byDisk := rfl
  nodes := List.map_map
  hosts := rfl
  errors := rfl
  isFinal := rfl

/-- Drives are never taken away, so they have to be selected. -/
theorem isWithin_restrict_iff : (f.restrict t).IsWithin t ↔ t.has .disk = true ∨ f.byDisk = .empty := by
  have hnarrows := narrows_restrict f t
  constructor
  · intro hwithin
    refine or_iff_not_imp_left.2 fun hdisk => KeyMap.ext_get? fun name => ?_
    rw [KeyMap.get?_empty]
    by_contra hsome
    exact hdisk (hwithin (.drive name) .disk (Option.isSome_iff_ne_none.2 hsome))
  · intro h p c hsome
    by_contra hc
    have hc : t.has c = false := Bool.eq_false_iff.2 hc
    cases p with
    | total => rw [hnarrows.total c hc] at hsome; cases hsome
    | node host => rw [hnarrows.node host c hc] at hsome; cases hsome
    | drive name =>
      rw [metrics?_restrict_drive] at hsome
      cases c with
      | disk =>
        obtain hdisk | hempty := h
        · rw [hdisk] at hc; cases hc
        · rw [metrics?, hempty, KeyMap.get?_empty] at hsome
          cases hsome
      | _ => cases hsome

end Frame

namespace CommandLine.Watch

/-- What is shown of a stream that is watched are its frames, narrowed to the categories that were asked for. Whatever a
frame holds of these stays as it is, in every place; of other categories nothing is left in total and of the nodes. Its
drives stay in any case: nothing else than what was asked for is left exactly if drives are asked for or the frame lists
none. -/
theorem narrows_watched (w : Watch) (surroundings : Surroundings) :
    (∃ shown last, w.Prints surroundings shown last) ∧
    ∀ f : Frame, Frame.Narrows w.types f (f.restrict w.types) ∧
      ((f.restrict w.types).IsWithin w.types ↔ w.types.has .disk = true ∨ f.byDisk = .empty) :=
  ⟨w.exists_prints surroundings, fun f => ⟨f.narrows_restrict w.types, Frame.isWithin_restrict_iff⟩⟩

/-- A final frame on the standard input, with a drive. -/
def oneDrive : Surroundings where
  standardInput := [.bytes (utf8Bytes "\x7b\"aggregated\":\x7b\"disk\":\x7b\x7d,\"cpu\":\x7b\x7d\x7d,"),
    .bytes (utf8Bytes "\"by_disk\":\x7b\"/d1\":\x7b\"n_disks\":1\x7d\x7d,\"final\":true\x7d")]
  openFile _ := .error .missing

/-- Shows what the frames of the standard input report of processors. -/
def cpuWatch : Watch := { input := "-", types := .single .cpu, isMerging := false, isJson := true }

/-- The drive is left, though nothing of drives was asked for. -/
theorem not_isWithin_oneDrive : ∃ f ∈ (cpuWatch.outcome oneDrive).delivered,
    ((f.restrict cpuWatch.types).metrics? (.drive "/d1") .disk).isSome ∧
      ¬ (f.restrict cpuWatch.types).IsWithin cpuWatch.types := by
  have hany : (cpuWatch.outcome oneDrive).delivered.any
      (fun f => ((f.restrict cpuWatch.types).metrics? (.drive "/d1") .disk).isSome) = true := by decide +kernel
  obtain ⟨f, hf, hsome⟩ := List.any_eq_true.1 hany
  refine ⟨f, hf, hsome, fun hwithin => ?_⟩
  have hhas : cpuWatch.types.has .disk = true := hwithin _ _ hsome
  exact absurd hhas (by decide)

end CommandLine.Watch

end ClusterMetrics
