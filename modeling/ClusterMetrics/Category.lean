/-! # Categories of metrics and masks of them

A mask selects categories. It keeps all 32 bits it is given, though only ten of them are defined. -/

namespace ClusterMetrics

inductive Category where
  | scanner | disk | os | batchJobs | siteResync | network | memory | cpu | rpc | runtime
deriving Repr, DecidableEq

namespace Category

/-- Every category, lowest bit first. -/
def all : List Category :=
  [scanner, disk, os, batchJobs, siteResync, network, memory, cpu, rpc, runtime]

def bit : Category → UInt32
  | scanner => 0x1
  | disk => 0x2
  | os => 0x4
  | batchJobs => 0x8
  | siteResync => 0x10
  | network => 0x20
  | memory => 0x40
  | cpu => 0x80
  | rpc => 0x100
  | runtime => 0x200

def name : Category → String
  | scanner => "scanner"
  | disk => "disk"
  | os => "os"
  | batchJobs => "batch-jobs"
  | siteResync => "site-resync"
  | network => "net"
  | memory => "mem"
  | cpu => "cpu"
  | rpc => "rpc"
  | runtime => "runtime"

end Category

/-- A selection of categories, one bit each. -/
structure CategoryMask where
  bits : UInt32
deriving Repr, DecidableEq

namespace CategoryMask

def none : CategoryMask := ⟨0⟩

/-- The ten defined bits. -/
def all : CategoryMask := ⟨0x3FF⟩

def single (c : Category) : CategoryMask := ⟨c.bit⟩

def union (a b : CategoryMask) : CategoryMask := ⟨a.bits ||| b.bits⟩

/-- Whether every bit of `b` is set in `a`. -/
def contains (a b : CategoryMask) : Bool := a.bits &&& b.bits == b.bits

def has (m : CategoryMask) (c : Category) : Bool := m.contains (single c)

def isEmpty (m : CategoryMask) : Bool := m.bits == 0

/-- The categories selected, lowest bit first. -/
def categories (m : CategoryMask) : List Category := Category.all.filter m.has

/-- The category that is all the mask selects. -/
def category? (m : CategoryMask) : Option Category := Category.all.find? (m == single ·)

def ofCategories (cs : List Category) : CategoryMask :=
  cs.foldl (fun m c => m.union (single c)) none

end CategoryMask

end ClusterMetrics
