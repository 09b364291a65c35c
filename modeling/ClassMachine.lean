import ClassMachine.Files.Tree
import ClassMachine.Main
import ClassMachine.Proofs.ClassFile.Exactness
import ClassMachine.Proofs.ClassTable.Walk
import ClassMachine.Proofs.Machine.Isolation
import ClassMachine.Proofs.Lifecycle.Sessions
import ClassMachine.Proofs.Machine.Calls
import ClassMachine.Proofs.Machine.Returning
import ClassMachine.Proofs.ClassTable.Registration
import ClassMachine.Proofs.Machine.Population
import ClassMachine.Proofs.Lifecycle.Registry
import ClassMachine.Proofs.ClassTable.Outlook
import ClassMachine.Proofs.ClassTable.Stages
import ClassMachine.Proofs.ClassTable.Errands
import ClassMachine.Proofs.Machine.Parts
import ClassMachine.Proofs.ClassTable.Foresight
import ClassMachine.Proofs.Machine.Comparison
import ClassMachine.Proofs.Machine.Preparation
import ClassMachine.Proofs.ClassFile.Coverage
import ClassMachine.Proofs.ClassTable.Reliability
import ClassMachine.Proofs.Machine.Holdings
import ClassMachine.Proofs.Machine.Confinement
import ClassMachine.Proofs.Machine.Reach
import ClassMachine.Proofs.Lifecycle.Activations
import ClassMachine.Proofs.ClassFile.Truncation
import ClassMachine.Proofs.Lifecycle.Arity
import ClassMachine.Proofs.Lifecycle.LimitedConsole
import ClassMachine.Proofs.ClassFile.FieldRefusals
import ClassMachine.Proofs.ClassFile.PoolCount
import ClassMachine.Proofs.Machine.MemberKinds
import ClassMachine.Proofs.Machine.Locals
import ClassMachine.Proofs.Machine.Counts
import ClassMachine.Proofs.Machine.Handover
import ClassMachine.Proofs.NameMap
import ClassMachine.Proofs.ClassFile.Slots
import ClassMachine.Proofs.ClassTable.Preparing
import ClassMachine.Proofs.Machine.Accesses
import ClassMachine.Proofs.Lifecycle.FieldReads
import ClassMachine.Proofs.Files.Search
import ClassMachine.Proofs.ClassTable.Termination
import ClassMachine.Proofs.Machine.Listings
import ClassMachine.Proofs.Machine.Depths
import ClassMachine.Proofs.Machine.Ranks
import ClassMachine.Proofs.Lifecycle.Returns
import ClassMachine.Proofs.Cursor.Division
import ClassMachine.Proofs.Native.Drafts
import ClassMachine.Proofs.Number.Decoding
