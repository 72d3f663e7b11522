import EcsactSiWasmer.Execution.Theorems.Logs
import EcsactSiWasmer.Execution.Theorems.Bindings
import EcsactSiWasmer.Execution.Theorems.Capacity
import EcsactSiWasmer.Execution.Theorems.OutParams
import EcsactSiWasmer.Execution.Theorems.Exclusive
import EcsactSiWasmer.Execution.Theorems.Traps
import EcsactSiWasmer.Execution.Theorems.Grants
import EcsactSiWasmer.Execution.Theorems.Totality
import EcsactSiWasmer.Execution.Theorems.Sharing
import EcsactSiWasmer.Execution.Theorems.Writes
import EcsactSiWasmer.Execution.Theorems.Handles
import EcsactSiWasmer.Execution.Theorems.Forged
import EcsactSiWasmer.Execution.Theorems.Idle
import EcsactSiWasmer.Execution.Theorems.Usage
import EcsactSiWasmer.Execution.Theorems.Entries
import EcsactSiWasmer.Execution.Theorems.Ownership
import EcsactSiWasmer.Execution.Theorems.Streaming
import EcsactSiWasmer.Execution.Theorems.Gathering
import EcsactSiWasmer.Execution.Theorems.Seeks
import EcsactSiWasmer.Execution.Theorems.Splitting
import EcsactSiWasmer.Execution.Theorems.Verdict
import EcsactSiWasmer.Execution.Theorems.LastError
import EcsactSiWasmer.Execution.Theorems.Balance
import EcsactSiWasmer.Execution.Theorems.Hosting
import EcsactSiWasmer.Execution.Theorems.Translation
import EcsactSiWasmer.Execution.Theorems.Interleaving
import EcsactSiWasmer.Execution.Theorems.Embedding
import EcsactSiWasmer.Execution.Theorems.Exchange
import EcsactSiWasmer.Execution.Theorems.Status
import EcsactSiWasmer.Execution.Theorems.Provenance
import EcsactSiWasmer.Execution.Theorems.References
import EcsactSiWasmer.Execution.Theorems.Transactions
import EcsactSiWasmer.Execution.Theorems.Linking
