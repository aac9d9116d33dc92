import ExpiringMap.Pool
import ExpiringMap.Proofs.Concurrent.Order
import ExpiringMap.Proofs.Entries.History
import ExpiringMap.Proofs.Entries.KeepAlive
import ExpiringMap.Proofs.Holds.Lifetime
import ExpiringMap.Proofs.Jobs.Ownership
import ExpiringMap.Proofs.Ledger.Conservation
import ExpiringMap.Proofs.Lifecycle.Answers
import ExpiringMap.Proofs.Lifecycle.Exclusion
import ExpiringMap.Proofs.Paired.Calm
import ExpiringMap.Proofs.Paired.Enumeration
import ExpiringMap.Proofs.Pass.Containment
import ExpiringMap.Proofs.Pass.Repetition
import ExpiringMap.Proofs.Pass.Touched
import ExpiringMap.Proofs.Stopping.Rest
import ExpiringMap.Proofs.Traffic.Overlap
import ExpiringMap.Proofs.Traffic.Tenancy
import ExpiringMap.Proofs.Traffic.Victory
import ExpiringMap.Rules
import ExpiringMap.Session
import ExpiringMap.Shelf
