import SourceMachine.Main
import SourceMachine.Proofs.Machine.Constants
import SourceMachine.Proofs.Machine.Locations
import SourceMachine.Proofs.Machine.FormedFrames
import SourceMachine.Proofs.Session.TwoChoices
import SourceMachine.Proofs.Session.GeneratedLists
import SourceMachine.Proofs.Session.ListLibrary
import SourceMachine.Proofs.Session.TryCatch
import SourceMachine.Proofs.Session.RoundRobin
import SourceMachine.Proofs.Program.Termination
import SourceMachine.Proofs.Value.Literals
import SourceMachine.Proofs.Value.Readability
import SourceMachine.Proofs.Program.Chains
import SourceMachine.Proofs.Heap.Nearest
import SourceMachine.Proofs.Value.Serialization
import SourceMachine.Proofs.Machine.Arguments
import SourceMachine.Proofs.Program.Imports
import SourceMachine.Proofs.Number.Random
import SourceMachine.Proofs.Token.Decimals
import SourceMachine.Proofs.Program.Arrows
