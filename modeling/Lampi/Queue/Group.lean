import Lampi.Lib.Table

/-!
# Process groups

A communicator works on a group: an ordered list of the job's processes.  `Group::create` builds
the tables that translate between a process's rank in the group, its global number, its host, and
its rank among the members on the calling process's own host.

Each table of the source is a definition here under the source's name; `Group.create` puts them
together in the order the source fills them.  The inter-host trees set up at the end of the source
function belong to the tree module and are not part of this record.
-/

namespace Lampi

/-- The job map as a process sees it after start-up.  Hosts own consecutive blocks of global
process numbers, `mapHostToLocalSize` giving the size of each block. -/
structure LampiState where
  mapHostToLocalSize : List ℕ
  hostid : ℕ
  localRank : ℕ
  /-- The process is one of those its host runs. -/
  localRank_lt : localRank < mapHostToLocalSize.getD hostid 0

namespace LampiState

/-- The two loops that fill `map_global_rank_to_host`, from host `h` on. -/
def fillHosts : ℕ → List ℕ → List ℕ
  | _, [] => []
  | h, size :: sizes => List.replicate size h ++ fillHosts (h + 1) sizes

variable (s : LampiState)

/-- `map_global_rank_to_host`. -/
def mapGlobalRankToHost : List ℕ := fillHosts 0 s.mapHostToLocalSize

/-- `global_proc_to_host`. -/
def globalProcToHost (x : ℕ) : ℕ := s.mapGlobalRankToHost.getD x 0

/-- `nprocs`, the sum of the host sizes. -/
def nprocs : ℕ := s.mapHostToLocalSize.sum

/-- `myhost`. -/
def myhost : ℕ := s.hostid

/-- `global_to_local_offset`: the processes on the hosts before this one. -/
def globalToLocalOffset : ℕ := (s.mapHostToLocalSize.take s.hostid).sum

/-- `myproc`. -/
def myproc : ℕ := s.localRank + s.globalToLocalOffset

end LampiState

/-- `ulm_host_info_t`. -/
structure UlmHostInfo where
  groupProcIDOnHost : List ℕ
  nGroupProcIDOnHost : ℕ
  hostID : ℕ
  hostCommRoot : ℕ
  destProc : ℕ
  deriving DecidableEq, Repr

/-- The tables of class `Group`.  An entry of `mapGroupProcIDToHostID` is `none` while nothing has
been stored there. -/
structure Group where
  groupID : ℤ
  groupSize : ℕ
  refCount : ℕ
  numberOfHostsInGroup : ℕ
  hostIndexInGroup : ℤ
  mapGroupProcIDToGlobalProcID : List ℕ
  groupHostData : List UlmHostInfo
  groupHostDataLookup : List ℤ
  mapGlobalProcIDToGroupProcID : List ℤ
  mapGroupProcIDToHostID : List (Option ℕ)
  ProcID : ℤ
  onHostProcID : ℕ
  onHostGroupSize : ℕ
  maxOnHostGroupSize : ℕ
  mapGroupProcIDToOnHostProcID : List ℤ
  deriving DecidableEq, Repr

/-- Error results of `Group::create`. -/
inductive GroupError
  | badParam
  deriving DecidableEq, Repr

namespace Group

variable (s : LampiState) (rnkLst : List ℕ)

/-- `groupHostList`: the hosts of the members, each at its first occurrence. -/
def groupHostList : List ℕ := Table.collectFrom [] (rnkLst.map s.globalProcToHost)

/-- The check for duplicate entries: `proc1` runs over the list, `proc2` below `proc1`. -/
def hasDuplicate : Bool :=
  (List.range rnkLst.length).any fun proc1 =>
    (List.range proc1).any fun proc2 => rnkLst[proc1]? == rnkLst[proc2]?

/-- `tmpProcList`: the group ranks on one host. -/
def tmpProcList (host : ℕ) : List ℕ :=
  (List.range rnkLst.length).filter fun proc =>
    s.globalProcToHost (rnkLst.getD proc 0) == host

/-- One entry of `groupHostData`. -/
def hostInfo (host : ℕ) : UlmHostInfo :=
  { hostID := host
    nGroupProcIDOnHost := (tmpProcList s rnkLst host).length
    groupProcIDOnHost := tmpProcList s rnkLst host
    hostCommRoot := (tmpProcList s rnkLst host).getD 0 0
    destProc := rnkLst.getD ((tmpProcList s rnkLst host).getD 0 0) 0 }

/-- `0xdeadbeef` as an `int`, stored where `groupHostDataLookup` has no entry. -/
def poison : ℤ := -559038737

/-- `groupHostDataLookup`, from the host list. -/
def hostDataLookup (hosts : List ℕ) : List ℤ :=
  let maxHostid := Table.maxOf id hosts
  Table.fill (List.replicate (maxHostid + 1) poison)
    (hosts.zipIdx.map fun w => (w.1, (w.2 : ℤ)))

/-- `mapGlobalProcIDToGroupProcID`: for each global number a search through the members. -/
def globalToGroup : List ℤ := (List.range s.nprocs).map fun i => Table.firstIndex i rnkLst

/-- The loop over the hosts that looks for the block `gRank` falls into. -/
def hostSearch (gRank : ℕ) : ℕ → ℕ → List ℕ → Option ℕ
  | _, _, [] => none
  | cumProcs, host, size :: sizes =>
    if cumProcs + size > gRank then some host
    else hostSearch gRank (cumProcs + size) (host + 1) sizes

/-- `mapGroupProcIDToHostID`. -/
def groupToHost : List (Option ℕ) :=
  rnkLst.map fun gRank => hostSearch gRank 0 0 s.mapHostToLocalSize

/-- The number of ranks below `procs` that `mapGroupProcIDToHostID` places on this host. -/
def countOnHost (procs : ℕ) : ℕ :=
  (List.range procs).countP fun proc => (groupToHost s rnkLst)[proc]? == some (some s.myhost)

/-- `mapGroupProcIDToOnHostProcID`, from the list of ranks on this host. -/
def groupToOnHost (onHost : List ℕ) : List ℤ := Table.fill (List.replicate rnkLst.length (-1))
    (onHost.map fun groupProcid => (groupProcid, (countOnHost s rnkLst groupProcid : ℤ)))

/-- `Group::create` for a list of global process numbers. -/
def create (grpID : ℤ) : Except GroupError Group :=
  let groupHostList := groupHostList s rnkLst
  let hostIndexInGroup := Table.firstIndex s.myhost groupHostList
  if hasDuplicate rnkLst then .error .badParam
  else
    let groupHostData := groupHostList.map (hostInfo s rnkLst)
    let mapGlobalProcIDToGroupProcID := globalToGroup s rnkLst
    let ProcID := mapGlobalProcIDToGroupProcID.getD s.myproc (-1)
    -- the ranks on this host, none if the host has no member
    let onHost := if hostIndexInGroup < 0 then [] else
      (groupHostData.map UlmHostInfo.groupProcIDOnHost).getD hostIndexInGroup.toNat []
    .ok
      { groupID := grpID
        groupSize := rnkLst.length
        refCount := 1
        numberOfHostsInGroup := groupHostList.length
        hostIndexInGroup := hostIndexInGroup
        mapGroupProcIDToGlobalProcID := rnkLst
        groupHostData := groupHostData
        groupHostDataLookup := hostDataLookup groupHostList
        mapGlobalProcIDToGroupProcID := mapGlobalProcIDToGroupProcID
        mapGroupProcIDToHostID := groupToHost s rnkLst
        ProcID := ProcID
        onHostProcID := countOnHost s rnkLst ProcID.toNat
        onHostGroupSize := onHost.length
        maxOnHostGroupSize := Table.maxOf UlmHostInfo.nGroupProcIDOnHost groupHostData
        mapGroupProcIDToOnHostProcID := groupToOnHost s rnkLst onHost }

end Group

end Lampi
