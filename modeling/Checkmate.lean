import Checkmate.Escrow.Routes
import Checkmate.Escrow.DepositBatch
import Checkmate.Escrow.Indexes
import Checkmate.Escrow.Active
import Checkmate.Escrow.ExpireBatch
import Checkmate.Escrow.Contest
import Checkmate.Escrow.Stalling
import Checkmate.Escrow.Upgrades
import Checkmate.Escrow.Blame
import Checkmate.Escrow.Archive
import Checkmate.Escrow.Fees
import Checkmate.Escrow.Solvency
import Checkmate.Escrow.Registries
import Checkmate.Escrow.Authority
import Checkmate.Oracle.Batch
import Checkmate.Oracle.Cache
import Checkmate.Oracle.Backing
import Checkmate.Oracle.Handover
import Checkmate.Oracle.Rounds
import Checkmate.Oracle.Deadlock
import Checkmate.Oracle.Swaps
import Checkmate.Oracle.Metrics
import Checkmate.Listings
import Checkmate.Service.Reconciliation
import Checkmate.Service.Retention
import Checkmate.Service.Exhaustion
import Checkmate.Service.Settlement
import Checkmate.Service.DeadLetters
import Checkmate.Service.SubmissionLog
import Checkmate.Indexer.Leader
import Checkmate.Indexer.MatchPages
import Checkmate.Websocket.Heartbeat
