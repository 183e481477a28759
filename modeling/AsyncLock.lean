import AsyncLock.Mutex.Accounting
import AsyncLock.Mutex.Wakeup
import AsyncLock.Mutex.Fairness
import AsyncLock.Semaphore.Accounting
import AsyncLock.Semaphore.Wakeup
import AsyncLock.Semaphore.Overflow
import AsyncLock.RwLock.Accounting
import AsyncLock.RwLock.Overflow
import AsyncLock.RwLock.Conversions
import AsyncLock.RwLock.ReaderWakeup
import AsyncLock.RwLock.WriterWakeup
import AsyncLock.RwLock.WritePreference
import AsyncLock.RwLock.TryAgreement
import AsyncLock.RwLock.ReaderRest
import AsyncLock.RwLock.ArcCount
import AsyncLock.OnceCell.Agreement
import AsyncLock.OnceCell.Wakeup
import AsyncLock.OnceCell.Custody
import AsyncLock.Barrier.Generations
import AsyncLock.Barrier.Withdrawal
import AsyncLock.FinishedFutures
import AsyncLock.Mutex.Completion
import AsyncLock.Semaphore.Repair
import AsyncLock.Semaphore.Completion
import AsyncLock.RwLock.InnerMutex
import AsyncLock.OnceCell.Completion
import AsyncLock.OnceCell.Refinement
import AsyncLock.Barrier.Completion
import AsyncLock.RwLock.Completion
import AsyncLock.RwLock.Refinement
import AsyncLock.Mutex.Unclocked
import AsyncLock.Mutex.Arc
import AsyncLock.Semaphore.Arc
import AsyncLock.Semaphore.Refinement
import AsyncLock.Updates
import AsyncLock.Aborts
