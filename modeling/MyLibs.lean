import MyLibs.Foundation.Order
import MyLibs.Foundation.BinaryHeap
import MyLibs.Foundation.BottomUpSift
import MyLibs.Foundation.Counting
import MyLibs.Foundation.HashChains
import MyLibs.Foundation.HashRewiring
import MyLibs.Foundation.BucketChains
import MyLibs.Foundation.RedBlack
import MyLibs.Foundation.NestedWalk
import MyLibs.Foundation.Slices
import MyLibs.Foundation.TreeDescent
import MyLibs.Foundation.ByteMemory
import MyLibs.Foundation.Matches
import MyLibs.Foundation.EditedWalk
import MyLibs.Foundation.StableSort
import MyLibs.Foundation.SharedExclusive
import MyLibs.Foundation.IntervalDescent
import MyLibs.Foundation.LockSteps
import MyLibs.Foundation.Transitions
import MyLibs.Foundation.Costs
import MyLibs.Foundation.SoleOwners
import MyLibs.Platform
import MyLibs.Malloc.Model
import MyLibs.Malloc.Sizes
import MyLibs.Queue.Model
import MyLibs.Queue.Order
import MyLibs.Queue.Sifts
import MyLibs.Queue.Operations
import MyLibs.Queue.Runs
import MyLibs.Queue.Removal
import MyLibs.Queue.Extending
import MyLibs.Queue.Comparisons
import MyLibs.Queue.AnyCompare
import MyLibs.Queue.Lifetimes
import MyLibs.Queue.StaysInside
import MyLibs.GrowableArray.Model
import MyLibs.GrowableArray.Operations
import MyLibs.GrowableArray.Runs
import MyLibs.GrowableArray.Sizes
import MyLibs.GrowableArray.Failures
import MyLibs.GrowableArray.Reuse
import MyLibs.LinkedList.Model
import MyLibs.LinkedList.Layout
import MyLibs.LinkedList.Operations
import MyLibs.LinkedList.Runs
import MyLibs.LinkedList.Walks
import MyLibs.LinkedList.Leaks
import MyLibs.LinkedList.Uninitialised
import MyLibs.LinkedList.Edits
import MyLibs.LinkedList.EditedWalks
import MyLibs.LinkedList.Sorting
import MyLibs.LinkedList.Cursors
import MyLibs.ChainedHash.Layout
import MyLibs.ChainedHash.Growth
import MyLibs.ChainedHash.Insertion
import MyLibs.ChainedHash.Calls
import MyLibs.ChainedHash.Contents
import MyLibs.ChainedHash.Runs
import MyLibs.ChainedHash.Walks
import MyLibs.ChainedHash.Lifetimes
import MyLibs.ChainedHash.Clearing
import MyLibs.ChainedHash.Iteration
import MyLibs.ChainedHash.Ownership
import MyLibs.ChainedHash.Owners
import MyLibs.ChainedHash.OwnedRuns
import MyLibs.ChainedHash.Deletions
import MyLibs.ChainedHash.Forward
import MyLibs.ChainedHash.Rehashing
import MyLibs.ChainedHash.Strings
import MyLibs.NestedWalks
import MyLibs.DynHash.Model
import MyLibs.DynHash.Growth
import MyLibs.DynHash.Layout
import MyLibs.DynHash.Placing
import MyLibs.DynHash.Unlinking
import MyLibs.DynHash.Splitting
import MyLibs.DynHash.Insertion
import MyLibs.DynHash.Deletion
import MyLibs.DynHash.Lookup
import MyLibs.DynHash.Operations
import MyLibs.DynHash.Runs
import MyLibs.DynHash.Properties
import MyLibs.DynHash.Uniqueness
import MyLibs.DynHash.Buckets
import MyLibs.DynHash.EmptyKeys
import MyLibs.DynHash.GrowthLaw
import MyLibs.DynHash.Lifetimes
import MyLibs.DynHash.Rekeying
import MyLibs.DynHash.Confinement
import MyLibs.DynHash.StaysInside
import MyLibs.RBTree.Model
import MyLibs.RBTree.Representation
import MyLibs.RBTree.Writes
import MyLibs.RBTree.InsertFixup
import MyLibs.RBTree.DeleteFixup
import MyLibs.RBTree.Search
import MyLibs.RBTree.Insertion
import MyLibs.RBTree.Deletion
import MyLibs.RBTree.Runs
import MyLibs.RBTree.Map
import MyLibs.RBTree.Cursors
import MyLibs.RBTree.Traversals
import MyLibs.RBTree.Steps
import MyLibs.RBTree.Accounts
import MyLibs.RBTree.MemoryLimit
import MyLibs.RBTree.Callbacks
import MyLibs.RBTree.Neighbours
import MyLibs.RBTree.KeyStorage
import MyLibs.RBTree.Scratch
import MyLibs.RBTree.FailedInserts
import MyLibs.RBTree.RecordPos
import MyLibs.RBTree.Comparisons
import MyLibs.RBTree.Rotations
import MyLibs.RBTree.Scans
import MyLibs.RBTree.SelfTest
import MyLibs.SrwLock.Model
import MyLibs.SrwLock.Modes
import MyLibs.SrwLock.Refinement
import MyLibs.RwLock.Model
import MyLibs.RwLock.Exclusion
import MyLibs.RwLock.Wakeups
import MyLibs.RwLock.Refinement
import MyLibs.RwLock.Progress
import MyLibs.RwLock.Dispatch
import MyLibs.PrRwLock.Model
import MyLibs.PrRwLock.Exclusion
import MyLibs.PrRwLock.Wakeups
import MyLibs.PrRwLock.Refinement
import MyLibs.PrRwLock.Progress
import MyLibs.Pthread.Once
import MyLibs.Pthread.Returns
import MyLibs.Pthread.Threads
import MyLibs.Pthread.Mutexes
